import WideDeep.Document
import WideDeep.Error
import WideDeep.Scalar
import WideDeep.Text.Blank
import WideDeep.Text.Case

/-!
# Activations

The functions between the layers, by name, with their derivatives. At its kink a function has the
derivative of its negative side.
-/

namespace WideDeep

inductive Activation where
  | sigmoid
  | tanh
  | relu
  | leakyRelu
  | linear
  deriving DecidableEq

def sigmoid {α : Type} [Scalar α] (x : α) : α :=
  1 / (1 + Scalar.exp (-x))

namespace Activation

def name : Activation → String
  | sigmoid => "sigmoid"
  | tanh => "tanh"
  | relu => "relu"
  | leakyRelu => "leakyrelu"
  | linear => "linear"

def all : List Activation :=
  [sigmoid, tanh, relu, leakyRelu, linear]

def ofName? (s : String) : Option Activation :=
  all.find? fun a => a.name == s

def parse (s : String) : Except Error Activation :=
  match ofName? (Text.lower (Text.strip s)) with
  | some a => .ok a
  | none => .error (.unknownActivation s)

/-- The activation that a document names; only a text can name one. -/
def ofDocument : Document → Except Error Activation
  | .text s => parse s
  | _ => .error .notText

variable {α : Type} [Scalar α]

/-- The slope of the leaky function on its negative side. -/
def leak : α :=
  Scalar.ofDouble 0.01

def apply (a : Activation) (x : α) : α :=
  match a with
  | sigmoid => WideDeep.sigmoid x
  | tanh => Scalar.tanh x
  | relu => if Scalar.less x 0 then 0 else x
  | leakyRelu => if Scalar.less 0 x then x else leak * x
  | linear => x

/-- What an activation does to the derivative `g` of its value `y` at `x`. -/
def back (a : Activation) (x y g : α) : α :=
  match a with
  | sigmoid => g * ((1 - y) * y)
  | tanh => g * (1 - y * y)
  | relu => if Scalar.atMost y 0 then 0 else g
  | leakyRelu => if Scalar.less 0 x then g else g * leak
  | linear => g

end Activation

end WideDeep
