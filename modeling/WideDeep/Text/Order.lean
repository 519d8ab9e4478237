/-!
# The order of texts

Texts are ordered by the code points of their characters.
-/

namespace WideDeep.Text

def sorted (texts : List String) : List String :=
  texts.mergeSort fun a b => decide (a ≤ b)

end WideDeep.Text
