import WideDeep.Model.Parameter
import WideDeep.Number
import WideDeep.Scalar
import WideDeep.Text.Case

/-!
# Optimizers

An optimizer turns gradients into changes of the weights, parameter by parameter. Regularization
adds the weights, times a factor, to their gradient. A factor beyond the range of the network's
numbers ends a step, and what was done before it stays done.
-/

namespace WideDeep

inductive OptimizerRule where
  | sgd
  | adam
  | adagrad
  deriving DecidableEq

def OptimizerRule.ofName? (name : String) : Option OptimizerRule :=
  let key := Text.lower name
  if key == "adam" then some .adam
  else if key == "sgd" then some .sgd
  else if key == "adagrad" then some .adagrad
  else none

/-- What is remembered of one parameter: the steps taken, the mean gradient, and the mean or the sum
of the squares of gradients. -/
structure Moments (α : Type) where
  steps : Nat
  mean : Tensor α
  square : Tensor α

def Moments.initial {α : Type} [Zero α] (shape : List Nat) : Moments α :=
  ⟨0, Tensor.zeros shape, Tensor.zeros shape⟩

/-- A rule with its rate, its factor of regularization, and what is remembered of the parameters in
their order. Of those beyond the end of the list nothing is remembered yet. -/
structure Optimizer (α : Type) where
  rule : OptimizerRule
  rate : Number
  decay : Float
  moments : List (Moments α)

/-- What a step leaves: weights, what is remembered of them, and the error that ended it, if one
did. -/
structure Stepped (α : Type) where
  weights : Parameters α
  moments : List (Moments α)
  failure : Option Error

namespace Optimizer

variable {α : Type}

def nothing : Number :=
  .int 0

/-- The optimizer of a name. Negative factors are refused, and by two of the rules also what is not
a number. -/
def make (name : String) (rate : Document) (decay : Float) : Except Error (Optimizer α) := do
  match OptimizerRule.ofName? name with
  | none => throw (.unknownOptimizer name)
  | some rule =>
    let rate ← rate.toNumber
    let refused (x : Number) : Bool :=
      if rule = .sgd then x.less nothing else !nothing.atMost x
    if refused rate || refused (.real decay) then throw .invalidValue
    pure ⟨rule, rate, decay, []⟩

variable [Scalar α]

def factor (x : Float) : Except Error α :=
  if Scalar.holds α x then .ok (Scalar.ofDouble x) else .error .factorRange

def keptMean : Float := 0.9

def keptSquare : Float := 0.999

def regularized (decay : Float) (weights gradient : Tensor α) : Except Error (Tensor α) :=
  if decay == 0 then .ok gradient
  else (factor decay).map fun c => gradient.combine (fun g w => g + c * w) weights

def blend (part : Float) (mean new : α) : α :=
  mean + Scalar.ofDouble part * (new - mean)

/-- Replace part of a mean square by the square of a new value. -/
def blendSquare (kept : Float) (square new : α) : α :=
  square * Scalar.ofDouble kept + Scalar.ofDouble (1 - kept) * new * new

/-- What is remembered of a parameter once its gradient is known. -/
def remember (rule : OptimizerRule) (m : Moments α) (gradient : Tensor α) : Moments α :=
  match rule with
  | .sgd => m
  | .adam =>
    ⟨m.steps + 1, m.mean.combine (blend (1 - keptMean)) gradient,
      m.square.combine (blendSquare keptSquare) gradient⟩
  | .adagrad => { m with square := m.square.combine (fun s g => s + g * g) gradient }

/-- The rate of a plain step, where an integer has to fit into a machine word. -/
def plainRate : Number → Except Error Float
  | .int n => if n ≤ 0x8000000000000000 then .ok (Binary.doubleOfInt n) else .error .overflow
  | .real x => .ok x

/-- How far the weights of a parameter move against the gradient. -/
def change (rule : OptimizerRule) (rate : Number) (m : Moments α) (gradient : Tensor α) :
    Except Error (Tensor α) :=
  match rule with
  | .sgd => do
    let r ← factor (← plainRate rate)
    pure (gradient.map fun g => r * g)
  | .adam => do
    let n := Binary.doubleOfInt (m.steps : Nat)
    let r : α ← factor ((← rate.toReal) / (1 - Float.pow keptMean n))
    let root : α := Scalar.ofDouble (Float.sqrt (1 - Float.pow keptSquare n))
    let least : α := Scalar.ofDouble 1e-8
    pure (m.mean.combine (fun m v => r * m / (Scalar.sqrt v / root + least)) m.square)
  | .adagrad => do
    let r : α ← factor (← rate.toReal)
    let least : α := Scalar.ofDouble 1e-10
    pure (gradient.combine (fun g s => r * g / (Scalar.sqrt s + least)) m.square)

/-- The step of one parameter: what is remembered behind it, and the new weights. -/
def stepOne (o : Optimizer α) (m : Moments α) (weights gradient : Tensor α) :
    Moments α × Except Error (Tensor α) :=
  match regularized o.decay weights gradient with
  | .error e => (m, .error e)
  | .ok g =>
    let m := remember o.rule m g
    (m, (change o.rule o.rate m g).map fun c => weights.combine (fun w c => w - c) c)

/-- The steps of parameters in their order, up to one that fails. -/
def stepAll (o : Optimizer α) (gradients : Parameters α) :
    List (Moments α) → Parameters α → Stepped α
  | moments, [] => ⟨[], moments, none⟩
  | moments, (name, w) :: rest =>
    let m := moments.head?.getD (.initial w.shape)
    match o.stepOne m w (gradients.tensor name) with
    | (m, .error e) => ⟨(name, w) :: rest, m :: moments.tail, some e⟩
    | (m, .ok w) =>
      let s := stepAll o gradients moments.tail rest
      ⟨(name, w) :: s.weights, m :: s.moments, s.failure⟩

def step (o : Optimizer α) (weights gradients : Parameters α) : Stepped α :=
  o.stepAll gradients o.moments weights

end Optimizer

end WideDeep
