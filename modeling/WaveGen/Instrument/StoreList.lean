import WaveGen.Text

/-!
# Stored waveforms (specification §4.4)

The instrument lists its stored waveforms in one reply. A built-in waveform has a place in the store
and a name, and the list gives them in a fixed order (`StoreList.builtInWaves`).
-/

namespace WaveGen

namespace StoreList

/-- The built-in waveforms in the order of the list: the place of each, and its name. -/
def builtInWaves : List (Nat × String) :=
  [(10, "ExpFal"), (100, "ECG14"), (101, "ECG15"), (102, "LFPulse"), (103, "Tens1"),
    (104, "Tens2"), (105, "Tens3"), (106, "Airy"), (107, "Besselj"), (108, "Bessely"),
    (109, "Dirichlet"), (11, "ExpRise"), (110, "Erf"), (111, "Erfc"), (112, "ErfcInv"),
    (113, "ErfInv"), (114, "Laguerre"), (115, "Legend"), (116, "Versiera"), (117, "Weibull"),
    (118, "LogNormal"), (119, "Laplace"), (12, "LogFall"), (120, "Maxwell"), (121, "Rayleigh"),
    (122, "Cauchy"), (123, "CosH"), (124, "CosInt"), (125, "CotH"), (126, "CscH"), (127, "SecH"),
    (128, "SinH"), (129, "SinInt"), (13, "LogRise"), (130, "TanH"), (131, "ACosH"),
    (132, "ASecH"), (133, "ASinH"), (134, "ATanH"), (135, "ACsch"), (136, "ACoth"),
    (137, "Bartlett"), (138, "BohmanWin"), (139, "ChebWin"), (14, "Sqrt"), (140, "FlattopWin"),
    (141, "ParzenWin"), (142, "TaylorWin"), (143, "TukeyWin"), (144, "Duty01"), (145, "Duty02"),
    (146, "Duty04"), (147, "Duty06"), (148, "Duty08"), (149, "Duty10"), (15, "Root3"),
    (150, "Duty12"), (151, "Duty14"), (152, "Duty16"), (153, "Duty18"), (154, "Duty20"),
    (155, "Duty22"), (156, "Duty24"), (157, "Duty26"), (158, "Duty28"), (159, "Duty30"),
    (16, "X^2"), (160, "Duty32"), (161, "Duty34"), (162, "Duty36"), (163, "Duty38"),
    (164, "Duty40"), (165, "Duty42"), (166, "Duty44"), (167, "Duty46"), (168, "Duty48"),
    (169, "Duty50"), (17, "X^3"), (170, "Duty52"), (171, "Duty54"), (172, "Duty56"),
    (173, "Duty58"), (174, "Duty60"), (175, "Duty62"), (176, "Duty64"), (177, "Duty66"),
    (178, "Duty68"), (179, "Duty70"), (18, "Sinc"), (180, "Duty72"), (181, "Duty74"),
    (182, "Duty76"), (183, "Duty78"), (184, "Duty80"), (185, "Duty82"), (186, "Duty84"),
    (187, "Duty86"), (188, "Duty88"), (189, "Duty90"), (19, "Gaussian"), (190, "Duty92"),
    (191, "Duty94"), (192, "Duty96"), (193, "Duty98"), (194, "Duty99"), (195, "demo1_375"),
    (196, "demo1_16k"), (197, "demo2_3k"), (198, "demo2_16k"), (2, "StairUp"), (20, "Dlorentz"),
    (21, "Haversine"), (22, "Lorentz"), (23, "Gauspuls"), (24, "Gmonopuls"), (25, "Tripuls"),
    (26, "Cardiac"), (27, "Quake"), (28, "Chirp"), (29, "Twotone"), (3, "StairDn"), (30, "SNR"),
    (31, "Hamming"), (32, "Hanning"), (33, "kaiser"), (34, "Blackman"), (35, "Gausswin"),
    (36, "Triangle"), (37, "BlackmanH"), (38, "Bartlett-Hann"), (39, "Tan"), (4, "StairUD"),
    (40, "Cot"), (41, "Sec"), (42, "Csc"), (43, "Asin"), (44, "Acos"), (45, "Atan"),
    (46, "Acot"), (47, "Square"), (48, "SineTra"), (49, "SineVer"), (5, "Ppulse"),
    (50, "AmpALT"), (51, "AttALT"), (52, "RoundHalf"), (53, "RoundsPM"), (54, "BlaseiWave"),
    (55, "DampedOsc"), (56, "SwingOsc"), (57, "Discharge"), (58, "Pahcur"), (59, "Combin"),
    (6, "Npulse"), (60, "SCR"), (61, "Butterworth"), (62, "Chebyshev1"), (63, "Chebyshev2"),
    (64, "TV"), (65, "Voice"), (66, "Surge"), (67, "Radar"), (68, "Ripple"), (69, "Gamma"),
    (7, "Trapezia"), (70, "StepResp"), (71, "BandLimited"), (72, "CPulse"), (73, "CWPulse"),
    (74, "GateVibr"), (75, "LFMPulse"), (76, "MCNoise"), (77, "AM"), (78, "FM"), (79, "PFM"),
    (8, "Upramp"), (80, "PM"), (81, "PWM"), (82, "EOG"), (83, "EEG"), (84, "EMG"),
    (85, "Pulseilogram"), (86, "ResSpeed"), (87, "ECG1"), (88, "ECG2"), (89, "ECG3"),
    (9, "Dnramp"), (90, "ECG4"), (91, "ECG5"), (92, "ECG6"), (93, "ECG7"), (94, "ECG8"),
    (95, "ECG9"), (96, "ECG10"), (97, "ECG11"), (98, "ECG12"), (99, "ECG13")]

/-- A waveform in the list: its place behind an `M`, and its name. -/
def entryText (place : Nat) (name : String) : Text :=
  'M' :: Text.ofNat place ++ ", ".toList ++ name.toList

/-- The list of the built-in waveforms. -/
def builtIn : Text :=
  "STL ".toList ++
    ", ".toList.intercalate (builtInWaves.map fun (place, name) => entryText place name)

/-- The list of the user's waveforms, which is empty but for its heading. -/
def user : Text := "STL WVNM".toList

end StoreList

end WaveGen
