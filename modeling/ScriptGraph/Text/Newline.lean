/-!
Line ends of a stored text. A carriage return, alone or with the newline after
it, is read as one newline.
-/

namespace ScriptGraph
namespace Newline

def unify : List Char → List Char
  | [] => []
  | '\r' :: '\n' :: cs => '\n' :: unify cs
  | c :: cs => (if c = '\r' then '\n' else c) :: unify cs

/-- Drop the last character if it is a newline. -/
def dropFinal (text : List Char) : List Char :=
  if text.getLast? = some '\n' then text.dropLast else text

theorem return_not_mem_unify (text : List Char) : '\r' ∉ unify text := by
  fun_induction unify text with
  | case1 => simp
  | case2 cs ih => simpa using ih
  | case3 c cs _ ih =>
    by_cases h : c = '\r'
    · simpa [h] using ih
    · simpa [h, Ne.symm h] using ih

end Newline
end ScriptGraph
