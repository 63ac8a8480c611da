import NewsServer.Lib.Memory

/-!
# Lines of a stream

The lines of a stream of bytes, and `fgets` over what of a stream has come in. If every line is
shorter than the buffer, each call takes one line, with its newline unless the stream ends before it
(`taken_of_fgets`), so that what has been read is always some of the first lines.
-/

namespace Lines

/-- `'\n'` -/
def newline : UInt8 := 10

/-- The stream ends with a line. -/
def Whole (s : Bytes) : Prop :=
  s = [] ∨ s.getLast? = some newline

instance (s : Bytes) : Decidable (Whole s) :=
  inferInstanceAs (Decidable (_ ∨ _))

/-- The lines of a stream, without their newlines. Behind the last newline there is one only if the
stream goes on. -/
def lines (s : Bytes) : List Bytes :=
  if Whole s then (s.splitOnP (· = newline)).dropLast else s.splitOnP (· = newline)

/-- `fgets(dst, n + 1, stream)`, `input` being what has come in, and `eof` whether that is all: the
bytes it puts in `dst`, nothing at the end of the stream, and what is left of `input`. It waits, and
has no result yet, while there is neither a newline nor the end. -/
def fgets (n : ℕ) (eof : Bool) (input : Bytes) : Option (Option Bytes × Bytes) :=
  let line := input.takeWhile (· ≠ newline)
  if line.length < n ∧ line.length < input.length then
    some (some (line ++ [newline]), input.drop (line.length + 1))
  else if n ≤ line.length then
    some (some (input.take n), input.drop n)
  else if eof then
    some (if input = [] then (none, []) else (some input, []))
  else
    none

section Lines

variable {s l : Bytes}

theorem whole_nil : Whole [] := .inl rfl

theorem whole_append_newline (s : Bytes) : Whole (s ++ [newline]) :=
  .inr (by simp)

theorem whole_append_iff (h : Whole s) (t : Bytes) : Whole (s ++ t) ↔ Whole t := by
  by_cases ht : t = []
  · subst ht
    rw [List.append_nil]
    exact iff_of_true h whole_nil
  · rw [Whole, Whole, List.getLast?_append_of_ne_nil _ ht, List.append_eq_nil_iff]
    simp [ht]

/-- The segments of a stream behind lines are theirs and its own. -/
theorem splitOnP_append_of_whole (h : Whole s) (t : Bytes) :
    (s ++ t).splitOnP (· = newline) = lines s ++ t.splitOnP (· = newline) := by
  have hlines : lines s = (s.splitOnP (· = newline)).dropLast := if_pos h
  rcases h with rfl | hlast
  · rfl
  · obtain ⟨s', rfl⟩ := List.getLast?_eq_some_iff.1 hlast
    rw [hlines, List.append_assoc, List.singleton_append,
      List.splitOnP_append_cons _ _ (by simp), List.splitOnP_append_cons _ _ (by simp),
      List.splitOnP_nil, List.dropLast_concat]

theorem lines_append (h : Whole s) (t : Bytes) : lines (s ++ t) = lines s ++ lines t := by
  have hne := List.splitOnP_ne_nil (· = newline) t
  conv_lhs => rw [lines]
  conv_rhs => rw [lines.eq_def t]
  rw [splitOnP_append_of_whole h]
  by_cases ht : Whole t
  · rw [if_pos ((whole_append_iff h t).2 ht), if_pos ht, List.dropLast_append_of_ne_nil hne]
  · rw [if_neg fun h' => ht ((whole_append_iff h t).1 h'), if_neg ht]

theorem splitOnP_of_notMem (hl : newline ∉ l) : l.splitOnP (· = newline) = [l] :=
  List.splitOnP_eq_singleton fun b hb => by simpa using fun heq : b = newline => hl (heq ▸ hb)

theorem lines_line (hl : newline ∉ l) : lines (l ++ [newline]) = [l] := by
  rw [lines, if_pos (whole_append_newline l), List.splitOnP_append_cons _ _ (by simp),
    splitOnP_of_notMem hl]
  rfl

theorem lines_last (hl : newline ∉ l) (hne : l ≠ []) : lines l = [l] := by
  have hnot : ¬ Whole l := by
    rintro (hnil | hlast)
    · exact hne hnil
    · exact hl (List.mem_of_getLast? hlast)
  rw [lines, if_neg hnot, splitOnP_of_notMem hl]

theorem takeWhile_newline (s : Bytes) : newline ∉ s.takeWhile (· ≠ newline) := by
  intro h
  simpa using List.mem_takeWhile_imp h

/-- A stream starts with its first line and a newline, or has none. -/
theorem eq_takeWhile_append (s : Bytes) :
    newline ∉ s ∧ s.takeWhile (· ≠ newline) = s ∨
      ∃ rest, s = s.takeWhile (· ≠ newline) ++ newline :: rest := by
  by_cases h : newline ∈ s
  · obtain ⟨l, rest, rfl, hl⟩ := List.eq_append_cons_of_mem h
    have hkeep : ∀ b ∈ l, decide (b ≠ newline) = true := by
      intro b hb
      simpa using fun heq : b = newline => hl (heq ▸ hb)
    refine .inr ⟨rest, ?_⟩
    rw [List.takeWhile_append_of_pos hkeep, List.takeWhile_cons_of_neg (by simp), List.append_nil]
  · refine .inl ⟨h, List.takeWhile_eq_self_iff.2 fun b hb => ?_⟩
    simpa using fun heq : b = newline => h (heq ▸ hb)

/-- The first line is among the lines. -/
theorem takeWhile_mem_lines (hne : s.takeWhile (· ≠ newline) ≠ [] ∨ newline ∈ s) :
    s.takeWhile (· ≠ newline) ∈ lines s := by
  have hl := takeWhile_newline s
  rcases eq_takeWhile_append s with ⟨hno, heq⟩ | ⟨rest, hs⟩
  · have hnil := hne.resolve_right hno
    rw [heq] at hnil ⊢
    rw [lines_last hno hnil]
    exact List.mem_singleton_self _
  · have hlines : lines s = s.takeWhile (· ≠ newline) :: lines rest := by
      conv_lhs => rw [hs, List.append_cons, lines_append (whole_append_newline _), lines_line hl]
      rfl
    rw [hlines]
    exact List.mem_cons_self

end Lines

section Fgets

/-- What a call takes off the input, if every line of the stream is shorter than the buffer: a line,
what there is behind the last newline, or nothing at the end. -/
inductive Taken (eof : Bool) (input : Bytes) : Option Bytes → Bytes → Prop
  | line {l rest : Bytes} (hl : newline ∉ l) (hinput : input = l ++ newline :: rest) :
      Taken eof input (some (l ++ [newline])) rest
  | last (hl : newline ∉ input) (hne : input ≠ []) (heof : eof = true) :
      Taken eof input (some input) []
  | none (hinput : input = []) (heof : eof = true) : Taken eof input none []

variable {n : ℕ} {eof : Bool} {input rest : Bytes} {line : Option Bytes}

/-- A line of the input is not longer than the stream's. -/
theorem length_takeWhile_lt {coming : Bytes} (hn : 0 < n)
    (h : ∀ l ∈ lines (input ++ coming), l.length < n) :
    (input.takeWhile (· ≠ newline)).length < n := by
  by_contra hlong
  have hpre : input.takeWhile (· ≠ newline) <+: (input ++ coming).takeWhile (· ≠ newline) := by
    rw [List.takeWhile_append]
    split_ifs with hall
    · rw [(List.takeWhile_prefix _).eq_of_length hall]
      exact List.prefix_append _ _
    · exact List.prefix_rfl
  have hle := hpre.length_le
  have hne : (input ++ coming).takeWhile (· ≠ newline) ≠ [] := by
    intro hnil
    rw [hnil, List.length_nil] at hle
    omega
  have hlt := h _ (takeWhile_mem_lines (.inl hne))
  omega

theorem taken_of_fgets (coming : Bytes) (hn : 0 < n)
    (hshort : ∀ l ∈ lines (input ++ coming), l.length < n)
    (h : fgets n eof input = some (line, rest)) : Taken eof input line rest := by
  have hlt := length_takeWhile_lt hn hshort
  have hl := takeWhile_newline input
  unfold fgets at h
  dsimp only at h
  rw [if_neg (not_le.2 hlt)] at h
  rcases eq_takeWhile_append input with ⟨hno, heq⟩ | ⟨more, hs⟩
  · rw [if_neg fun hlong => absurd (heq ▸ hlong.2) (lt_irrefl _)] at h
    split_ifs at h with heof hnil
    · obtain ⟨rfl, rfl⟩ := Prod.mk.inj (Option.some.inj h)
      exact .none hnil heof
    · obtain ⟨rfl, rfl⟩ := Prod.mk.inj (Option.some.inj h)
      exact .last hno hnil heof
  · generalize input.takeWhile (· ≠ newline) = l at h hlt hl hs
    subst hs
    have hlong : l.length < (l ++ newline :: more).length := by
      rw [List.length_append, List.length_cons]
      omega
    rw [if_pos ⟨hlt, hlong⟩, ← List.drop_drop, List.drop_left, List.drop_succ_cons,
      List.drop_zero] at h
    obtain ⟨rfl, rfl⟩ := Prod.mk.inj (Option.some.inj h)
    exact .line hl rfl

end Fgets

end Lines
