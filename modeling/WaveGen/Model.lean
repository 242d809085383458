import WaveGen.Text

/-!
# Instrument models (specification §10.5)

The models differ only in how they identify themselves.
-/

namespace WaveGen

/-- The models that the instrument can be. -/
inductive Model where
  | sdg1032x
  | sdg1062x
deriving DecidableEq, Repr

/-- A text that names no model. -/
inductive ModelFault where
  | unknownModel (id : Text)
deriving DecidableEq, Repr

/-- The wording of the failure. -/
def ModelFault.message : ModelFault → Text
  | .unknownModel id => "Unknown instrument model ".toList ++ Text.quoted id

namespace Model

/-- All models. -/
def all : List Model := [sdg1032x, sdg1062x]

/-- The name of a model, as the instrument prints it. -/
def name : Model → Text
  | sdg1032x => "SDG1032X".toList
  | sdg1062x => "SDG1062X".toList

/-- The reply to `*IDN?`: maker, model, serial number and firmware. -/
def identification (model : Model) : Text :=
  "Siglent Technologies,".toList ++ model.name ++ ",SDG1XCBD5R6027,1.01.01.33R1B6".toList

/-- The model of this name, in any letter case and with blanks around it or not. -/
def parse (id : Text) : Except ModelFault Model :=
  match all.find? fun model => Text.sameLetters model.name (Text.trim id) with
  | some model => .ok model
  | none => .error (.unknownModel id)

end Model

end WaveGen
