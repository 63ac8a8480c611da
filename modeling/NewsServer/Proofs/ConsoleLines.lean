import NewsServer.Console
import NewsServer.Proofs.Stranded

/-!
# The lines of standard input

The stdin branch strips the last byte of what is in `buffer`, whatever `fgets` has returned, so it
gets the line exactly if that ends with a newline and has no NUL in it (`command_line_iff`). A
command that is sent leaves the branch, and the lines that came with it stay in stdio's buffer,
where `::select` does not see them (`faithful_iff`).
-/

namespace NewsServer

open Memory
open Server (stdinFileno)
open Lines (lines newline Whole Taken)

namespace Console

section Command

variable {buffer l : Bytes}

theorem cstr_readLine (buffer : Bytes) (hl : l.length ≤ maxCommandSize - 2) :
    cstr (Client.readLine buffer (some l)) = cstr l := by
  rw [Client.readLine, List.take_of_length_le hl, overwrite, List.take_zero, List.nil_append,
    List.append_assoc]
  exact cstr_append_zero l _

theorem cstr_readLine_none (buffer : Bytes) : cstr (Client.readLine buffer none) = [] := by
  rw [Client.readLine, overwrite, List.take_zero, List.nil_append]
  rfl

theorem cstr_overwrite_last (buffer : Bytes) :
    cstr (overwrite buffer ((cstr buffer).length - 1) [0]) = (cstr buffer).dropLast := by
  have hpre : cstr buffer <+: buffer := List.takeWhile_prefix _
  obtain ⟨rest, hrest⟩ := hpre
  have htake : (cstr buffer ++ rest).take ((cstr buffer).length - 1) = (cstr buffer).dropLast := by
    rw [List.take_append_of_le_length (Nat.sub_le _ _), List.dropLast_eq_take]
  rw [hrest] at htake
  rw [overwrite, htake, List.append_assoc]
  refine cstr_append_nul (fun h0 => ?_) _
  exact notMem_cstr buffer (List.mem_of_mem_dropLast h0)

theorem command_eq (hl : l.length ≤ maxCommandSize - 2) :
    command buffer (some l) = if cstr l = [] then none else some (cstr l).dropLast := by
  have hstr := cstr_readLine buffer hl
  unfold command
  dsimp only
  rw [hstr]
  by_cases h : cstr l = []
  · rw [if_pos h, h, if_pos List.length_nil]
  · rw [if_neg h, if_neg (fun h0 => h (List.length_eq_zero_iff.1 h0)), ← hstr,
      cstr_overwrite_last]

theorem command_none : command buffer none = none := by
  unfold command
  dsimp only
  rw [cstr_readLine_none, if_pos List.length_nil]

/-- What is stripped of a string is shorter than the bytes it comes from. -/
theorem length_of_command {s : Bytes} (hl : l.length ≤ maxCommandSize - 2)
    (h : command buffer (some l) = some s) : s.length < (cstr l).length := by
  rw [command_eq hl] at h
  split_ifs at h with hnil
  obtain rfl := Option.some.inj h
  have hpos := List.length_pos_iff.2 hnil
  rw [List.length_dropLast]
  omega

/-- A line with its newline is what the branch gets, exactly if there is no NUL in it. -/
theorem command_line_iff (hl : (l ++ [newline]).length ≤ maxCommandSize - 2) :
    command buffer (some (l ++ [newline])) = some l ↔ 0 ∉ l := by
  constructor
  · intro h h0
    have hlt := length_of_command hl h
    obtain ⟨s, r, rfl, hs⟩ := List.eq_append_cons_of_mem h0
    rw [List.append_assoc, List.cons_append, cstr_append_nul hs, List.length_append] at hlt
    omega
  · intro h0
    have hnul : 0 ∉ l ++ [newline] := by
      rw [List.mem_append, List.mem_singleton]
      rintro (h | h)
      · exact h0 h
      · exact absurd h (by decide)
    rw [command_eq hl, cstr_of_notMem hnul, if_neg (by simp), List.dropLast_concat]

theorem command_ne_last (hl : l.length ≤ maxCommandSize - 2) :
    command buffer (some l) ≠ some l := by
  intro h
  have hlt := length_of_command hl h
  have hle : (cstr l).length ≤ l.length := (List.takeWhile_sublist _).length_le
  omega

end Command

/-- The commands are the lines of what has been read, whole lines unless the stream is at its end;
and where the loop waits, `::select` waits for all the lines there are. At the end of the stream the
loop ends. -/
structure Faithful (stream : Bytes) (v : Console) : Prop where
  stream : stream = v.read ++ v.stdio ++ v.pipe ++ v.coming
  whole : Whole v.read ∨ v.eof = true ∧ v.stdio = [] ∧ v.pipe = []
  commands : v.commands = (lines v.read).map some
  waits : v.ending = none → v.Selects → ¬ v.Readable → newline ∉ v.stdio
  ends : v.sawEof = true → v.ending = some .exit ∨ v.ending = some .closed

/-- The line that is read ends with a newline, and has no NUL in it; and where `get_next_fd` finds
nothing, and nothing has come in since, the last call of `fgets` has left no line. -/
def Takes (v : Console) : ConsoleInput → Prop
  | .step _ =>
    (v.terminal.client.pc = .body stdinFileno →
      ∀ x ∈ v.fgets, ∃ l ∈ x.1, l.getLast? = some newline ∧ 0 ∉ l) ∧
    (v.terminal.client.Drained → ¬ v.Readable → newline ∉ v.stdio)
  | _ => True

instance (v : Console) : ∀ i, Decidable (Takes v i)
  | .step _ => inferInstanceAs (Decidable (_ ∧ _))
  | .piece _ => .isTrue trivial
  | .hangUp => .isTrue trivial

/-- What holds of every console. -/
structure Kept (stream : Bytes) (v : Console) : Prop where
  stream : stream = v.read ++ v.stdio ++ v.pipe ++ v.coming
  whole : Whole v.read ∨ v.eof = true ∧ v.stdio = [] ∧ v.pipe = []
  coming : v.eof = true → v.coming = []
  sound : v.terminal.client.multi.Sound

section Step

variable {R : RealText} {stream : Bytes} {v v' : Console} {k : ClientKernel}

theorem Kept.run (h : Kept stream v) (R : RealText) (k : ClientKernel) :
    Kept stream (v.run R k) := by
  unfold Console.run
  rcases hs : v.terminal.step R k with e | terminal
  · exact ⟨h.stream, h.whole, h.coming, h.sound⟩
  · refine ⟨h.stream, h.whole, h.coming, ?_⟩
    obtain ⟨evs, hturn, -⟩ := Terminal.turn_of_ok hs
    obtain ⟨as, hexec⟩ := hturn.exec
    exact MultiSocket.Sound.exec h.sound hexec

/-- A call of `fgets` takes one line. -/
theorem Kept.taken (h : Kept stream v) (hshort : ∀ l ∈ lines stream, l.length < maxCommandSize - 2)
    {line : Option Bytes} {rest : Bytes} (hf : v.fgets = some (line, rest)) :
    Taken v.eof (v.stdio ++ v.pipe) line rest := by
  refine Lines.taken_of_fgets v.coming (by decide) (fun l hl => hshort l ?_) hf
  rcases h.whole with hwhole | ⟨heof, hstdio, hpipe⟩
  · rw [h.stream, List.append_assoc, List.append_assoc, Lines.lines_append hwhole]
    rw [List.append_assoc] at hl
    exact List.mem_append_right _ hl
  · rw [hstdio, hpipe, h.coming heof] at hl
    simp [lines, Lines.Whole] at hl

/-- The console with what a call of `fgets` has given it. -/
def took (v : Console) (line : Option Bytes) (rest : Bytes) : Console :=
  { v with
    pipe := []
    stdio := rest
    read := v.read ++ line.getD []
    commands := v.commands ++ [command v.terminal.client.buffer line]
    sawEof := v.sawEof || line.isNone }

theorem Kept.took (h : Kept stream v) {line : Option Bytes} {rest : Bytes}
    (ht : Taken v.eof (v.stdio ++ v.pipe) line rest) : Kept stream (v.took line rest) := by
  have hs := h.stream
  rw [List.append_assoc v.read] at hs
  cases ht with
  | @line l _ hl hinput =>
    refine ⟨?_, .inl ?_, h.coming, h.sound⟩
    · rw [hs, hinput]
      simp [Console.took]
    · simp only [Console.took, Option.getD_some]
      rw [← List.append_assoc]
      exact Lines.whole_append_newline _
  | last hl hne heof =>
    refine ⟨?_, .inr ⟨heof, rfl, rfl⟩, h.coming, h.sound⟩
    rw [hs]
    simp [Console.took]
  | none hinput heof =>
    refine ⟨?_, .inr ⟨heof, rfl, rfl⟩, h.coming, h.sound⟩
    rw [hs, hinput]
    simp [Console.took]

/-- The steps of a console, where every line of the stream fits in the buffer. -/
inductive Moved (R : RealText) (v : Console) : ConsoleInput → Console → Prop
  | piece (n : ℕ) : Moved R v (.piece n)
      { v with pipe := v.pipe ++ v.coming.take n, coming := v.coming.drop n }
  | hangUp (h : v.coming = []) : Moved R v .hangUp { v with eof := true }
  | wait (k : ClientKernel) (hpc : v.terminal.client.pc = .body stdinFileno)
      (hf : v.fgets = none) : Moved R v (.step k) { v with stdio := v.stdio ++ v.pipe, pipe := [] }
  | line (k : ClientKernel) {line : Option Bytes} {rest : Bytes} (hend : v.ending = none)
      (hpc : v.terminal.client.pc = .body stdinFileno) (hf : v.fgets = some (line, rest)) :
      Moved R v (.step k) ((v.took line rest).run R { k with line })
  | other (k : ClientKernel) (hend : v.ending = none)
      (hpc : v.terminal.client.pc ≠ .body stdinFileno) : Moved R v (.step k) (v.run R k)

theorem moved_of_next {i : ConsoleInput} (hn : v.next R i = some v') : Moved R v i v' := by
  cases i with
  | piece n =>
    obtain rfl := Option.some.inj hn
    exact .piece n
  | hangUp =>
    simp only [next] at hn
    split_ifs at hn with hcoming
    obtain rfl := Option.some.inj hn
    exact .hangUp hcoming
  | step k =>
    simp only [next] at hn
    split_ifs at hn with hend hpc hready
    · rcases hf : v.fgets with _ | ⟨line, rest⟩ <;> rw [hf] at hn
      · obtain rfl := Option.some.inj hn
        exact .wait k hpc hf
      · obtain rfl := Option.some.inj hn
        exact .line k (not_not.1 hend) hpc hf
    · obtain rfl := Option.some.inj hn
      exact .other k (not_not.1 hend) hpc

theorem Kept.next (h : Kept stream v) (hshort : ∀ l ∈ lines stream, l.length < maxCommandSize - 2)
    {i : ConsoleInput} (hm : Moved R v i v') : Kept stream v' := by
  cases hm with
  | piece n =>
    refine ⟨?_, h.whole.imp_right fun hw => ⟨hw.1, hw.2.1, ?_⟩, fun heof => ?_, h.sound⟩
    · rw [h.stream]
      simp only [List.append_assoc, List.take_append_drop]
    · simp only [hw.2.2, h.coming hw.1, List.take_nil, List.append_nil]
    · simp only [h.coming heof, List.drop_nil]
  | hangUp hcoming =>
    exact ⟨h.stream, h.whole.imp_right fun hw => ⟨rfl, hw.2⟩, fun _ => hcoming, h.sound⟩
  | wait k hpc hf =>
    refine ⟨?_, h.whole.imp_right fun hw => ⟨hw.1, ?_, rfl⟩, h.coming, h.sound⟩
    · rw [h.stream]
      simp only [List.append_assoc, List.nil_append]
    · simp only [hw.2.1, hw.2.2, List.append_nil]
  | line k hend hpc hf => exact (h.took (h.taken hshort hf)).run R _
  | other k => exact h.run R k

/-- What a step shows of the commands is what it has taken. -/
theorem run_fields (v : Console) (k : ClientKernel) :
    (v.run R k).commands = v.commands ∧ (v.run R k).read = v.read ∧
      (v.run R k).sawEof = v.sawEof ∧ (v.run R k).stdio = v.stdio ∧
      (v.run R k).pipe = v.pipe ∧ (v.run R k).eof = v.eof := by
  unfold Console.run
  rcases v.terminal.step R k with e | terminal
  · exact ⟨rfl, rfl, rfl, rfl, rfl, rfl⟩
  · exact ⟨rfl, rfl, rfl, rfl, rfl, rfl⟩

theorem turn_of_run (hend : (v.run R k).ending = none) :
    ∃ evs, Turn R v.terminal.client k (v.run R k).terminal.client evs := by
  unfold Console.run at hend ⊢
  rcases hs : v.terminal.step R k with e | terminal <;> rw [hs] at hend
  · simp at hend
  obtain ⟨evs, hturn, -⟩ := Terminal.turn_of_ok hs
  exact ⟨evs, hturn⟩

/-- Behind the stdin branch is the branch itself, or the next event. -/
theorem not_selects_of_line (hpc : v.terminal.client.pc = .body stdinFileno)
    (hend : (v.run R k).ending = none) : ¬ (v.run R k).Selects := by
  rintro ⟨hpc', -⟩
  obtain ⟨evs, hturn⟩ := turn_of_run hend
  obtain ⟨-, -, h | h, -⟩ := handleStdin_frame (hturn.of_stdin hpc)
  · simp [h, hpc] at hpc'
  · simp [h] at hpc'

theorem Kept.whole_read (h : Kept stream v) (hne : v.stdio ++ v.pipe ≠ []) : Whole v.read := by
  rcases h.whole with hwhole | ⟨-, hstdio, hpipe⟩
  · exact hwhole
  · simp [hstdio, hpipe] at hne

theorem Kept.mem_lines (h : Kept stream v) {l more : Bytes} (hl : newline ∉ l)
    (hinput : v.stdio ++ v.pipe = l ++ newline :: more) : l ∈ lines stream := by
  have hwhole := h.whole_read (by simp [hinput])
  rw [h.stream, List.append_assoc v.read, hinput, List.append_assoc, Lines.lines_append hwhole,
    List.append_assoc, List.cons_append, List.append_cons l,
    Lines.lines_append (Lines.whole_append_newline l), Lines.lines_line hl]
  exact List.mem_append_right _ (List.mem_append_left _ (List.mem_singleton_self l))

theorem Kept.mem_lines_last (h : Kept stream v) (heof : v.eof = true)
    (hl : newline ∉ v.stdio ++ v.pipe) (hne : v.stdio ++ v.pipe ≠ []) :
    v.stdio ++ v.pipe ∈ lines stream := by
  have hs := h.stream
  rw [h.coming heof, List.append_nil, List.append_assoc] at hs
  rw [hs, Lines.lines_append (h.whole_read hne), Lines.lines_last hl hne]
  exact List.mem_append_right _ (List.mem_singleton_self _)

/-- What a call of `fgets` adds to the commands is what it adds to the lines, exactly if it gives a
line without NUL. -/
theorem Kept.commands_iff (h : Kept stream v)
    (hshort : ∀ l ∈ lines stream, l.length < maxCommandSize - 2)
    (hcommands : v.commands = (lines v.read).map some) {line : Option Bytes} {rest : Bytes}
    (ht : Taken v.eof (v.stdio ++ v.pipe) line rest) :
    (v.took line rest).commands = (lines (v.took line rest).read).map some ↔
      ∃ l ∈ line, l.getLast? = some newline ∧ 0 ∉ l := by
  simp only [Console.took, hcommands]
  cases ht with
  | @line l _ hl hinput =>
    have hlen := hshort l (h.mem_lines hl hinput)
    have hle : (l ++ [newline]).length ≤ maxCommandSize - 2 := by
      rw [List.length_append, List.length_singleton]
      omega
    rw [Option.getD_some, Lines.lines_append (h.whole_read (by simp [hinput])),
      Lines.lines_line hl, List.map_append, List.append_cancel_left_eq, List.map_singleton,
      List.singleton_inj, command_line_iff hle]
    have hne : (0 : UInt8) ≠ newline := by decide
    simp [hne]
  | last hl hne heof =>
    have hlen := hshort _ (h.mem_lines_last heof hl hne)
    rw [Option.getD_some, Lines.lines_append (h.whole_read hne), Lines.lines_last hl hne,
      List.map_append, List.append_cancel_left_eq, List.map_singleton, List.singleton_inj]
    refine iff_of_false (command_ne_last hlen.le) ?_
    rintro ⟨l, hmem, hlast, -⟩
    obtain rfl := Option.some.inj hmem
    exact hl (List.mem_of_getLast? hlast)
  | none =>
    rw [Option.getD_none, List.append_nil, command_none]
    simp

/-- A call of `fgets` that gives a line without NUL is as it should be. -/
theorem Faithful.line_iff (h : Faithful stream v) (hkept : Kept stream v)
    (hshort : ∀ l ∈ lines stream, l.length < maxCommandSize - 2) (hend : v.ending = none)
    (hpc : v.terminal.client.pc = .body stdinFileno) {line : Option Bytes} {rest : Bytes}
    (hf : v.fgets = some (line, rest)) :
    Faithful stream ((v.took line rest).run R { k with line }) ↔
      ∃ l ∈ line, l.getLast? = some newline ∧ 0 ∉ l := by
  have ht := hkept.taken hshort hf
  have hkept' := (hkept.took ht).run R { k with line }
  have hiff := hkept.commands_iff hshort h.commands ht
  obtain ⟨hcommands, hread, hsaw, -⟩ := run_fields (R := R) (v.took line rest) { k with line }
  rw [← hcommands, ← hread] at hiff
  refine ⟨fun h' => hiff.1 h'.commands, fun hline => ?_⟩
  refine ⟨hkept'.stream, hkept'.whole, hiff.2 hline, fun hend' hsel => ?_, fun hsaw' => ?_⟩
  · exact absurd hsel (not_selects_of_line hpc hend')
  · obtain ⟨l, hmem, -⟩ := hline
    obtain rfl := Option.mem_def.1 hmem
    rw [hsaw] at hsaw'
    simp only [Console.took, Option.isNone_some, Bool.or_false] at hsaw'
    rcases h.ends hsaw' with he | he <;> simp [he] at hend

/-- Where `get_next_fd` is called, `main` goes on. -/
theorem ending_of_drained (hend : v.ending = none) (hd : v.terminal.client.Drained) :
    (v.run R k).ending = none := by
  have hstep : v.terminal.client.step R k = .ok (v.terminal.client.nextFd, []) := by
    unfold Client.step
    rcases hd.1 with hpc | ⟨hpc, hq⟩
    · rw [hpc]
    · rw [hpc]
      exact if_neg hq
  unfold Console.run Terminal.step
  rw [hstep]
  exact hend

theorem not_drained_of_body {c : Client} {fd : ℤ} (hpc : c.pc = .body fd) : ¬ c.Drained := by
  rintro ⟨hpc' | ⟨hpc', -⟩, -⟩ <;> simp [hpc] at hpc'

/-- A step of `main` that does not read keeps what it should, exactly if no line is left where
`get_next_fd` finds nothing. -/
theorem Faithful.other_iff (h : Faithful stream v) (hkept : Kept stream v)
    (hend : v.ending = none) : Faithful stream (v.run R k) ↔
      (v.terminal.client.Drained → ¬ v.Readable → newline ∉ v.stdio) := by
  have hkept' := hkept.run R k
  obtain ⟨hcommands, hread, hsaw, hstdio, hpipe, heof⟩ := run_fields (R := R) v k
  have hreadable : (v.run R k).Readable ↔ v.Readable := by
    simp only [Readable, hpipe, heof]
  constructor
  · intro h' hd hno
    have hend' := ending_of_drained (R := R) (k := k) hend hd
    obtain ⟨evs, hturn⟩ := turn_of_run hend'
    have hsel := (Client.blocks_of_drained hturn hd).1
    rw [← hstdio]
    exact h'.waits hend' hsel fun hr => hno (hreadable.1 hr)
  · intro htakes
    refine ⟨hkept'.stream, hkept'.whole, ?_, fun hend' hsel hno => ?_, fun hsaw' => ?_⟩
    · rw [hcommands, hread]
      exact h.commands
    · rw [hreadable] at hno
      rw [hstdio]
      obtain ⟨evs, hturn⟩ := turn_of_run hend'
      rcases (Client.blocks_of_turn hkept.sound hturn hsel).1 with hd | hb
      · exact htakes hd hno
      · exact h.waits hend hb hno
    · rw [hsaw] at hsaw'
      rcases h.ends hsaw' with he | he <;> simp [he] at hend

/-- A step keeps the commands the lines, exactly if it takes what it should. -/
theorem Faithful.next_iff (h : Faithful stream v) (hkept : Kept stream v)
    (hshort : ∀ l ∈ lines stream, l.length < maxCommandSize - 2) {i : ConsoleInput}
    (hm : Moved R v i v') : Faithful stream v' ↔ Takes v i := by
  have hkept' := hkept.next hshort hm
  cases hm with
  | piece n =>
    refine iff_of_true ⟨hkept'.stream, hkept'.whole, h.commands, fun hend hsel hno => ?_, h.ends⟩
      trivial
    refine h.waits hend hsel fun hr => hno (hr.imp_left fun hne hnil => ?_)
    exact hne (List.append_eq_nil_iff.1 hnil).1
  | hangUp =>
    refine iff_of_true ⟨hkept'.stream, hkept'.whole, h.commands, fun _ _ hno => ?_, h.ends⟩
      trivial
    exact absurd (.inr rfl) hno
  | wait k hpc hf =>
    refine iff_of_true ⟨hkept'.stream, hkept'.whole, h.commands, fun _ hsel _ => ?_, h.ends⟩
      ⟨fun _ x hx => ?_, fun hd => absurd hd (not_drained_of_body hpc)⟩
    · rcases hsel.1 with hpc' | hpc' <;> simp [hpc] at hpc'
    · simp [hf] at hx
  | line k hend hpc hf =>
    rw [h.line_iff hkept hshort hend hpc hf]
    constructor
    · intro hline
      refine ⟨fun _ x hx => ?_, fun hd => absurd hd (not_drained_of_body hpc)⟩
      obtain rfl := Option.some.inj (hf.symm.trans hx)
      exact hline
    · intro htakes
      exact htakes.1 hpc _ hf
  | other k hend hpc =>
    rw [h.other_iff hkept hend]
    exact ⟨fun hno => ⟨fun hpc' => absurd hpc' hpc, hno⟩, fun htakes => htakes.2⟩

end Step

end Console

open Console (Faithful Takes Kept moved_of_next)

/-- In every run of a subscriber whose standard input is a stream of lines that fit in the buffer,
the commands are the lines, none is left where the loop blocks, and the loop ends at the end of the
stream, in every state reached, exactly if every step takes what it should. -/
theorem faithful_iff (R : RealText) (t₀ : Terminal) (stream : Bytes)
    (tr : List (Console × ConsoleInput)) (v : Console) (h0 : t₀.Started)
    (hshort : ∀ l ∈ lines stream, l.length < maxCommandSize - 2)
    (h : Console.Run R t₀ stream tr v) :
    (∀ w ∈ Runs.states tr v, Faithful stream w) ↔ ∀ q ∈ tr, Takes q.1 q.2 := by
  have hstart : Kept stream (Console.start t₀ stream) :=
    ⟨rfl, .inl Lines.whole_nil, fun heof => absurd heof Bool.false_ne_true, h0.sound⟩
  refine h.states_iff (I := Kept stream) (C := Takes) hstart (fun w i w' hw hn => ?_) ?_
    (fun w i w' hw hf hC hn => ?_) (fun w i w' hw hf hn hf' => ?_)
  · exact hw.next hshort (moved_of_next hn)
  · exact ⟨rfl, .inl Lines.whole_nil, rfl, fun _ _ _ => List.not_mem_nil,
      fun hsaw => absurd hsaw Bool.false_ne_true⟩
  · exact (hf.next_iff hw hshort (moved_of_next hn)).2 hC
  · exact (hf.next_iff hw hshort (moved_of_next hn)).1 hf'

namespace ConsoleInput

/-- Nothing happens. -/
def quiet : ConsoleInput := .step .quiet

/-- The `AUTH` is accepted on `fd`. -/
def reply (fd : ℤ) : ConsoleInput := .step (.chunk fd [0, 0, 0, 1, 1])

/-- `::select` finds standard input ready. -/
def typed : ConsoleInput :=
  .step { ClientKernel.quiet with pass := ⟨{stdinFileno}, fun _ => none, 0⟩ }

end ConsoleInput

/-- A subscription and the end. -/
def twoCommands : Bytes :=
  text "subscribe a 0\nexit\n"

/-- The second command comes in, in two pieces, when the first has been sent. -/
def lineInputs : List ConsoleInput :=
  [.reply 5, .quiet, .quiet, .piece 14, .typed, .quiet, .quiet, .quiet, .piece 3, .piece 2, .typed,
    .quiet, .quiet]

set_option maxRecDepth 10000 in
/-- Two commands that come in one after the other. -/
theorem faithful_iff_lines : ∃ tr v,
    Console.Run noReals (.connected [65] 5 default zeroLocals) twoCommands tr v ∧
      tr.map Prod.snd = lineInputs ∧ v.ending = some .exit ∧
      ∀ w ∈ Runs.states tr v, Faithful twoCommands w := by
  have hshort : ∀ l ∈ lines twoCommands, l.length < maxCommandSize - 2 := by
    decide +kernel
  have hexec : ∃ v ∈ Runs.exec (Console.next noReals)
      (.start (.connected [65] 5 default zeroLocals) twoCommands) lineInputs,
      v.ending = some .exit := by
    decide +kernel
  have hmeets : Runs.Meets (Console.next noReals) Takes
      (.start (.connected [65] 5 default zeroLocals) twoCommands) lineInputs := by
    decide +kernel
  obtain ⟨tr, v, hr, htr, hC, hend⟩ := Runs.exists_run_of_meets hexec hmeets
  have h0 : (Terminal.connected [65] 5 default zeroLocals).Started :=
    Terminal.started_connected (by decide) (by decide) (by decide) default zeroLocals
  exact ⟨tr, v, hr, htr, hend, (faithful_iff noReals _ _ tr v h0 hshort hr).2 hC⟩

/-- Both commands come in at once. -/
def togetherInputs : List ConsoleInput :=
  [.reply 5, .quiet, .quiet, .piece 19, .typed, .quiet, .quiet, .quiet]

/-- The stream ends before its first byte. -/
def endInputs : List ConsoleInput :=
  [.reply 5, .quiet, .quiet, .hangUp, .typed, .quiet, .quiet]

set_option maxRecDepth 10000 in
/-- The loop blocks over the second command, and at the end of a stream the index is negative. -/
theorem not_faithful_together :
    (∃ tr v, Console.Run noReals (.connected [65] 5 default zeroLocals) twoCommands tr v ∧
      tr.map Prod.snd = togetherInputs ∧ v.ending = none ∧ v.Selects ∧ ¬ v.Readable ∧
      v.stdio = text "exit\n" ∧ ¬ Faithful twoCommands v) ∧
    ∃ tr v, Console.Run noReals (.connected [65] 5 default zeroLocals) [] tr v ∧
      tr.map Prod.snd = endInputs ∧ v.commands = [none] ∧ ¬ Faithful [] v := by
  constructor
  · have hexec : ∃ v ∈ Runs.exec (Console.next noReals)
        (.start (.connected [65] 5 default zeroLocals) twoCommands) togetherInputs,
        v.ending = none ∧ v.Selects ∧ ¬ v.Readable ∧ v.stdio = text "exit\n" := by
      decide +kernel
    obtain ⟨tr, v, hr, htr, hend, hsel, hno, hstdio⟩ := Runs.exists_run_of_exec hexec
    refine ⟨tr, v, hr, htr, hend, hsel, hno, hstdio, fun h => h.waits hend hsel hno ?_⟩
    rw [hstdio]
    decide
  · have hexec : ∃ v ∈ Runs.exec (Console.next noReals)
        (.start (.connected [65] 5 default zeroLocals) []) endInputs, v.commands = [none] := by
      decide +kernel
    obtain ⟨tr, v, hr, htr, hnone⟩ := Runs.exists_run_of_exec hexec
    refine ⟨tr, v, hr, htr, hnone, fun h => ?_⟩
    have hmem : none ∈ (lines v.read).map some := h.commands ▸ hnone ▸ List.mem_singleton_self _
    simp at hmem

end NewsServer
