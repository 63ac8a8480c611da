import NewsServer.Proofs.Answers
import NewsServer.Proofs.Mailboxes

/-!
# What the server prints

The server prints a line when it accepts or declines an `AUTH`, and when a connection was closed.
For each id that is not empty, the lines that it was connected or disconnected are the changes of
its state, in order (`tells_presence`).
-/

namespace NewsServer

open Memory

section Changes

variable {α : Type*} [DecidableEq α]

theorem destutter'_concat (a b : α) : ∀ l : List α,
    (l ++ [b]).destutter' (· ≠ ·) a =
      l.destutter' (· ≠ ·) a ++ if l.getLastD a ≠ b then [b] else []
  | [] => by
    by_cases h : a = b <;> simp [List.destutter', h]
  | c :: l => by
    rw [List.cons_append]
    by_cases h : a = c
    · subst h
      rw [List.destutter'_cons_neg _ (by simp), List.destutter'_cons_neg _ (by simp),
        destutter'_concat a b l, List.getLastD_cons]
    · rw [List.destutter'_cons_pos _ h, List.destutter'_cons_pos _ h, destutter'_concat c b l,
        List.getLastD_cons, List.cons_append]

/-- A list that goes on has another change, if what comes is new. -/
theorem destutter_concat {a : α} (b : α) {l : List α} (h : l.getLast? = some a) :
    (l ++ [b]).destutter (· ≠ ·) = l.destutter (· ≠ ·) ++ if a ≠ b then [b] else [] := by
  rcases l with _ | ⟨c, l⟩
  · simp at h
  · rw [List.cons_append, List.destutter_cons', List.destutter_cons', destutter'_concat]
    rw [List.getLast?_cons, Option.some.injEq, ← List.getLastD_eq_getLast?] at h
    rw [h]

end Changes

/-- What a line tells of the client `id`: that it is connected, or that it is not. -/
def Line.presence (id : Bytes) : Line → Option Bool
  | .newClient id' _ => if id' = id then some true else none
  | .alreadyConnected _ => none
  | .disconnected id' => if id' = id then some false else none

/-- The lines of a run, `addr` being the addresses that `getpeername` gives. -/
def World.lines (addr : ℕ → SockaddrIn) (tr : List (World × Kernel)) : List Line :=
  tr.zipIdx.filterMap fun q => q.1.1.server.prints (addr q.2)

section Prints

variable {s : Server} {addr : SockaddrIn} {fd : ℤ} {buf : Bytes} {type : UInt8} {t' : Tables}

/-- The name in the buffer is the one in the frame. -/
theorem cstr_drop_overwrite (h : buf.length < buflen) :
    cstr ((overwrite (List.replicate buflen 0) 0 buf).drop 1) = frameField buf := by
  obtain ⟨n, hn⟩ : ∃ n, buflen - buf.length = n + 1 := ⟨buflen - buf.length - 1, by omega⟩
  have hbuffer : overwrite (List.replicate buflen 0) 0 buf = buf ++ 0 :: List.replicate n 0 := by
    simp [overwrite, List.drop_replicate, hn, List.replicate_succ]
  rw [hbuffer, frameField]
  rcases buf with _ | ⟨b, buf⟩
  · rcases n with _ | n <;> rfl
  · rw [List.cons_append, List.drop_one, List.tail_cons, List.cons_append, List.drop_one,
      List.tail_cons, cstr_append_zero, cstr_append_zero]

theorem prints_of_body (hpc : s.pc = .body fd) : s.prints addr = match s.branch fd with
    | .closed => some (.disconnected (s.tables.idsMap.getD fd []))
    | .recv =>
      match s.received fd with
      | .ok (_, some (buffer, _, type, _)) => answerPrints addr buffer type
      | _ => none
    | _ => none := by
  rcases s with ⟨multi, tables, buffer, pc⟩
  subst hpc
  rfl

theorem prints_of_at {b : Branch} (hat : s.At fd b) (hclosed : b ≠ .closed) (hrecv : b ≠ .recv) :
    s.prints addr = none := by
  rw [prints_of_body hat.1, hat.2]
  rcases b <;> simp at hclosed hrecv ⊢

theorem prints_of_closed (hat : s.At fd .closed) :
    s.prints addr = some (.disconnected (s.tables.idsMap.getD fd [])) := by
  rw [prints_of_body hat.1, hat.2]

/-- A frame that is ready is handed to `process_tcp_client_packet`. -/
theorem received_of_incoming (fd : ℤ) (hm : s.multi.Sound) (hin : s.incoming = some buf)
    (hsize : buf.length ≤ cliPacketSize) : ∃ multi type tables,
      Processed s.tables fd buf type tables ∧
      s.received fd = .ok (multi,
        some (overwrite (List.replicate buflen 0) 0 buf, buf.length, type, tables)) := by
  have hlong : buf.length ≤ buflen := hsize.trans (by decide)
  obtain ⟨sock, rest, hs, hpk⟩ := World.exists_packets_of_incoming (w := ⟨s, []⟩) hm hin
  obtain ⟨sock', hrecv, -, -⟩ := hm.recv_eq hs hpk
  obtain ⟨type, tables, hproc⟩ := process_total s.tables fd
    (overwrite (List.replicate buflen 0) 0 buf) hsize
  have hp := process_ok hproc
  have htake : (overwrite (List.replicate buflen 0) 0 buf).take buf.length = buf := by
    simp [overwrite]
  rw [htake] at hp
  refine ⟨s.multi.recv.2.2.2, type, tables, hp, ?_⟩
  unfold Server.received
  rw [hrecv]
  dsimp only
  rw [if_neg (not_lt.2 hlong), if_neg (by decide), if_neg (by decide), hproc]

/-- What is printed for a frame is by what `process_tcp_client_packet` returns. -/
theorem prints_of_frame (hat : s.At fd .recv) (hm : s.multi.Sound) (hin : s.incoming = some buf)
    (hsize : buf.length ≤ cliPacketSize) (hp : Processed s.tables fd buf type t') :
    s.prints addr = if type = typeAuth then some (.newClient (frameField buf) addr)
      else if type = typeAuthDuplicate then some (.alreadyConnected (frameField buf))
      else none := by
  obtain ⟨multi, type', tables, hp', hrecv⟩ := received_of_incoming fd hm hin hsize
  have hauth : type' = typeAuth ↔ type = typeAuth := hp'.auth_iff.trans hp.auth_iff.symm
  have hdup : type' = typeAuthDuplicate ↔ type = typeAuthDuplicate :=
    hp'.duplicate_iff.trans hp.duplicate_iff.symm
  rw [prints_of_body hat.1, hat.2]
  dsimp only
  rw [hrecv]
  dsimp only
  rw [answerPrints, printAuthConfirmation, printAuthDecline,
    cstr_drop_overwrite (hsize.trans_lt (by decide))]
  exact if_congr hauth rfl (if_congr hdup rfl rfl)

theorem prints_of_idle (hat : s.At fd .recv) (hin : s.incoming = none) :
    s.prints addr = none := by
  have hr := received_recv s.multi
  unfold Server.incoming at hin
  rw [prints_of_body hat.1, hat.2]
  unfold Server.received
  rcases hrecv : s.multi.recv with ⟨size, out, copied, multi⟩
  rw [hrecv] at hr hin
  dsimp only at hin ⊢
  cases hr with
  | unbuffered =>
    rw [if_neg (by simp), if_neg (by decide), if_neg (by decide), process_big _ _ _ (by decide)]
  | notReady => simp
  | written =>
    dsimp only at hin
    split_ifs at hin with hle
    rw [if_pos (not_le.1 hle)]

theorem prints_of_pc (hpc : s.pc = .top ∨ s.pc = .selecting) : s.prints addr = none := by
  unfold Server.prints
  rcases hpc with hpc | hpc <;> rw [hpc]

end Prints

namespace World

variable {w w' : World} {k : Kernel} {id : Bytes}

/-- Whether the client `id` is connected. -/
def online (w : World) (id : Bytes) : Bool :=
  (userOf w.server.tables.clients id).isSome

/-- An id that is bound to a descriptor is connected on it. -/
def Held (w : World) : Prop :=
  ∀ fd id, id ≠ [] → w.server.tables.idsMap[fd]? = some id →
    userOf w.server.tables.clients id = some fd

theorem bound_of_getD {ids : IdMap} {fd : ℤ} (hid : id ≠ []) (h : ids.getD fd [] = id) :
    ids[fd]? = some id := by
  rw [Std.TreeMap.getD_eq_getD_getElem?] at h
  rcases hb : ids[fd]? with _ | x <;> rw [hb] at h
  · exact absurd h.symm hid
  · exact congrArg some h

theorem held_start (udp tcp : ℤ) (buffer : Bytes) : (start udp tcp buffer).Held := by
  intro fd id _ h
  simp [start, Server.start] at h

theorem Held.of_same (h : w.Held)
    (hids : w'.server.tables.idsMap = w.server.tables.idsMap)
    (huser : ∀ x, userOf w'.server.tables.clients x = userOf w.server.tables.clients x) :
    w'.Held := by
  intro fd id hid hbound
  rw [huser]
  exact h fd id hid (hids ▸ hbound)

theorem Held.next (h : w.Held) (hw : w.Consistent) (hn : World.next w k = some w') : w'.Held := by
  have hd := (hw.does hn).1
  generalize hs : w'.server = s' at hd
  generalize w.events k = evs at hd
  have hsame : s'.tables = w.server.tables → w'.Held := fun ht =>
    h.of_same (by rw [hs, ht]) fun x => by rw [hs, ht]
  cases hd with
  | poll => exact hsame rfl
  | select => exact hsame rfl
  | stdin => exact hsame rfl
  | accept => exact hsame rfl
  | idle => exact hsame rfl
  | news _ hfan =>
    refine h.of_same (by rw [hs]) fun x => ?_
    rw [hs]
    exact hfan.user x
  | @closed fd hat =>
    intro fd' id hid hbound
    rw [hs] at hbound ⊢
    simp only [Server.handleClosed, Std.TreeMap.getElem?_erase, Option.ite_none_left_eq_some,
      Std.compare_eq_iff_eq] at hbound
    obtain ⟨hne, hbound⟩ := hbound
    have huser := h fd' id hid hbound
    simp only [Server.handleClosed, userOf_insert]
    rw [if_neg fun hname => ?_]
    · exact huser
    · rw [h fd id hid (bound_of_getD hid hname)] at huser
      exact hne (Option.some.inj huser)
  | @frame fd buf type tables multi past evs hat hin hsize hmem hp hans hpast =>
    by_cases htype : type = typeAuth
    · obtain ⟨-, hfree, hl⟩ := hp.of_auth htype
      intro fd' id hid hbound
      rw [hs] at hbound ⊢
      dsimp only at hbound ⊢
      rw [hl.ids, Std.TreeMap.getElem?_insert] at hbound
      rw [hl.user]
      by_cases hfd : fd = fd'
      · rw [if_pos (Std.compare_eq_iff_eq.2 hfd), Option.some.injEq] at hbound
        rw [if_pos hbound, hfd]
      · rw [if_neg (mt Std.compare_eq_iff_eq.1 hfd)] at hbound
        have huser := h fd' id hid hbound
        rw [if_neg fun hname => ?_]
        · exact huser
        · rw [← hname, hfree] at huser
          simp at huser
    · have hl := hp.sameLogins htype
      exact h.of_same (by rw [hs]; exact hl.ids) fun x => by rw [hs]; exact hl.user x

/-- A step prints that a client is connected or disconnected exactly when that changes. -/
theorem prints_next (hw : w.Consistent) (hm : w.server.multi.Sound) (hheld : w.Held)
    (hn : World.next w k = some w') (hid : id ≠ []) (addr : SockaddrIn) :
    w'.online id = ((w.server.prints addr).bind (Line.presence id)).getD (w.online id) ∧
      ∀ b ∈ (w.server.prints addr).bind (Line.presence id), w.online id ≠ b := by
  have hd := (hw.does hn).1
  generalize hs : w'.server = s' at hd
  generalize w.events k = evs at hd
  have hquiet : userOf s'.tables.clients id = userOf w.server.tables.clients id →
      (w.server.prints addr).bind (Line.presence id) = none →
      w'.online id = ((w.server.prints addr).bind (Line.presence id)).getD (w.online id) ∧
        ∀ b ∈ (w.server.prints addr).bind (Line.presence id), w.online id ≠ b := by
    intro huser hnone
    rw [hnone]
    exact ⟨by rw [online, hs, huser]; rfl, by simp⟩
  cases hd with
  | poll hpc => exact hquiet rfl (by rw [prints_of_pc (hpc.imp_right And.left)]; rfl)
  | select hpc => exact hquiet rfl (by rw [prints_of_pc (.inr hpc)]; rfl)
  | stdin hat => exact hquiet rfl (by rw [prints_of_at hat (by decide) (by decide)]; rfl)
  | accept hat => exact hquiet rfl (by rw [prints_of_at hat (by decide) (by decide)]; rfl)
  | news hat hfan =>
    exact hquiet (hfan.user id) (by rw [prints_of_at hat (by decide) (by decide)]; rfl)
  | idle hat hin =>
    exact hquiet rfl (by rw [prints_of_idle hat hin]; rfl)
  | @closed fd hat =>
    have hprints : w.server.prints addr = _ := prints_of_closed hat
    by_cases hname : w.server.tables.idsMap.getD fd [] = id
    · have huser := hheld fd id hid (bound_of_getD hid hname)
      rw [hprints, Option.bind_some, Line.presence, if_pos hname]
      constructor
      · simp [online, hs, Server.handleClosed, userOf_insert, hname]
      · simp [online, huser]
    · refine hquiet ?_ ?_
      · simp only [Server.handleClosed, userOf_insert, if_neg hname]
      · rw [hprints, Option.bind_some, Line.presence, if_neg hname]
  | @frame fd buf type tables multi past evs hat hin hsize hmem hp hans hpast =>
    have hprints : w.server.prints addr = _ :=
      prints_of_frame hat hm hin hsize hp
    by_cases htype : type = typeAuth
    · obtain ⟨-, hfree, hl⟩ := hp.of_auth htype
      rw [hprints, if_pos htype, Option.bind_some, Line.presence]
      rw [online, online, hs, hl.user]
      by_cases hname : frameField buf = id
      · subst hname
        simp [hfree]
      · simp [hname]
    · refine hquiet ((hp.sameLogins htype).user id) ?_
      rw [hprints, if_neg htype]
      split_ifs <;> rfl

theorem lines_concat (addr : ℕ → SockaddrIn) (tr : List (World × Kernel)) (w : World)
    (k : Kernel) :
    lines addr (tr ++ [(w, k)]) = lines addr tr ++ (w.server.prints (addr tr.length)).toList := by
  rw [lines, lines, List.zipIdx_append, List.filterMap_append]
  rcases hp : w.server.prints (addr tr.length) with _ | line <;> simp [hp]

/-- Up to the first line the client is not connected, and what the lines tell of it after that are
its changes. -/
theorem tells_presence {udp tcp : ℤ} {buffer : Bytes} {tr : List (World × Kernel)} {w : World}
    (h : Run udp tcp buffer tr w) {id : Bytes} (hid : id ≠ []) (addr : ℕ → SockaddrIn) :
    false :: (lines addr tr).filterMap (Line.presence id) =
      ((Runs.states tr w).map (online · id)).destutter (· ≠ ·) := by
  suffices hinv : w.Held ∧ false :: (lines addr tr).filterMap (Line.presence id) =
      ((Runs.states tr w).map (online · id)).destutter (· ≠ ·) from hinv.2
  induction h with
  | start =>
    exact ⟨held_start udp tcp buffer, by
      simp [lines, Runs.states, online, start, Server.start, userOf, default]⟩
  | @step tr v w k hr hn ih =>
    obtain ⟨hheld, ih⟩ := ih
    have hv := Run.consistent hr
    obtain ⟨hnext, hne⟩ := prints_next hv (Run.sound hr) hheld hn hid (addr tr.length)
    refine ⟨hheld.next hv hn, ?_⟩
    have hlast : ((Runs.states tr v).map (online · id)).getLast? = some (v.online id) := by
      simp [Runs.states]
    rw [lines_concat, List.filterMap_append, ← List.cons_append, ih, Runs.states_concat,
      List.map_append, List.map_singleton, destutter_concat _ hlast, List.append_cancel_left_eq]
    rcases hp : (v.server.prints (addr tr.length)).bind (Line.presence id) with _ | b
    · rw [hp, Option.getD_none] at hnext
      rw [if_neg (not_not.2 hnext.symm)]
      rcases hline : v.server.prints (addr tr.length) with _ | line
      · rfl
      · rw [hline, Option.bind_some] at hp
        simp [hp]
    · obtain ⟨line, hline, hb⟩ := Option.bind_eq_some_iff.1 hp
      rw [hp, Option.getD_some] at hnext
      rw [hnext, if_pos (hne b hp), hline]
      simp [hb]

set_option maxRecDepth 10000 in
/-- `A` has come three times, and left twice. -/
theorem tells_presence_return : ∃ tr w, Run 3 4 [] tr w ∧
    tr.map Prod.snd = missInputs ++ returnInputs ∧
      ((Runs.states tr w).map (online · [65])).destutter (· ≠ ·) =
        [false, true, false, true, false, true] := by
  have hrec : ∃ x ∈ Runs.exec (Runs.record next) ([], start 3 4 []) (missInputs ++ returnInputs),
      (lines (fun _ => default) x.1).filterMap (Line.presence [65]) =
        [true, false, true, false, true] := by
    decide +kernel
  obtain ⟨tr, w, hr, htr, hlines⟩ := Runs.exists_run_of_record
    (P := fun (tr : List (World × Kernel)) (_ : World) =>
      (lines (fun _ => default) tr).filterMap (Line.presence [65]) =
        [true, false, true, false, true]) hrec
  refine ⟨tr, w, hr, htr, ?_⟩
  rw [← tells_presence hr (by decide) fun _ => default, hlines]

end World

end NewsServer
