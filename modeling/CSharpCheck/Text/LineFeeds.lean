/-!
# Line feeds

Text that is read from outside marks the ends of its lines by LF alone: every CR LF and every
other CR stands for an LF. In text that is written, only a CR LF stands for an LF.
-/

namespace CSharpCheck

/-- The text with LF for every CR LF and for every other CR. -/
def lineFeeds : List Char → List Char
  | [] => []
  | '\r' :: '\n' :: cs => '\n' :: lineFeeds cs
  | '\r' :: cs => '\n' :: lineFeeds cs
  | c :: cs => c :: lineFeeds cs

/-- The text with LF for every CR LF. Any other CR stays. -/
def joinedLineFeeds : List Char → List Char
  | [] => []
  | '\r' :: '\n' :: cs => '\n' :: joinedLineFeeds cs
  | c :: cs => c :: joinedLineFeeds cs

/-- No CR is left. -/
theorem notMem_lineFeeds (text : List Char) : '\r' ∉ lineFeeds text := by
  fun_induction lineFeeds text with
  | case1 => simp
  | case2 cs ih => simpa using ih
  | case3 cs _ ih => simpa using ih
  | case4 c cs _ hc ih => simpa [Ne.symm hc] using ih

/-- Text without CR stays as it is. -/
theorem lineFeeds_eq_self {text : List Char} (h : '\r' ∉ text) : lineFeeds text = text := by
  fun_induction lineFeeds text with
  | case1 => rfl
  | case2 => simp at h
  | case3 => simp at h
  | case4 c cs _ hc ih => rw [ih fun hm ↦ h (List.mem_cons_of_mem c hm)]

/-- Joining leaves text without CR as it is. -/
theorem joinedLineFeeds_eq_self {text : List Char} (h : '\r' ∉ text) :
    joinedLineFeeds text = text := by
  fun_induction joinedLineFeeds text with
  | case1 => rfl
  | case2 => simp at h
  | case3 c cs _ ih => rw [ih fun hm ↦ h (List.mem_cons_of_mem c hm)]

end CSharpCheck
