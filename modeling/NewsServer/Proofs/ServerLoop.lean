import NewsServer.Proofs.EventLoop
import NewsServer.Proofs.Steps

/-!
# The server's loop over its `MultiSocket`

What a step of the server does with its `MultiSocket` is a few actions (`step_moved`), so its object
is sound in every run.
-/

namespace NewsServer

open MultiSocket (Action act)

/-- The actions of a step on the `MultiSocket`, and the object after them. -/
inductive Moved (s : Server) (k : Kernel) : List Action → MultiSocket → Prop
  | poll (hpc : s.pc = .top ∨ s.pc = .selecting ∧ s.multi.sockQueue ≠ []) :
      Moved s k [.getNextFd] s.multi.getNextFd.2
  | select (hpc : s.pc = .selecting) (hq : s.multi.sockQueue = []) :
      Moved s k [.select k.pass] (s.multi.selectRound k.pass).1
  | stay {fd : ℤ} {b : Branch} (hat : s.At fd b) (hb : b = .stdin ∨ b = .udp ∨ b = .closed) :
      Moved s k [] s.multi
  | accept {fd : ℤ} (hat : s.At fd .accept) :
      Moved s k [.opened k.newsockfd k.uninit] (s.multi.opened k.newsockfd k.uninit)
  | recv {fd : ℤ} (hat : s.At fd .recv) : Moved s k [.recv] s.multi.recv.2.2.2
  | refuse {fd : ℤ} (hat : s.At fd .recv) :
      Moved s k [.recv, .close fd] (s.multi.recv.2.2.2.close fd)

section Step

variable {s s' : Server} {k : Kernel} {fd : ℤ} {evs : List Event}

theorem handleUdp_multi (h : s.handleUdp k = .ok (s', evs)) : s'.multi = s.multi := by
  rw [handleUdp_eq] at h
  rcases hf : fanOut s.multi k.news _ s.tables.clients with e | ⟨clients, evs'⟩ <;> rw [hf] at h
  · simp at h
  · obtain ⟨rfl, -⟩ := Prod.mk.inj (Except.ok.inj h)
    rfl

theorem answer_multi {multi multi' : MultiSocket} {tables : Tables} {buffer : Bytes} {size : ℕ}
    {type : UInt8} (h : answer multi tables fd buffer size type = .ok (multi', evs)) :
    multi' = multi ∨ multi' = multi.close fd := by
  unfold answer at h
  split_ifs at h
  · rcases hs : multi.send fd (buffer.take size) with e | ⟨cnt, evs₁⟩ <;> rw [hs] at h
    · simp at h
    dsimp only at h
    rcases hu : unloadNewsQueue multi _ _ with e | evs₂ <;> rw [hu] at h
    · simp at h
    · exact .inl (Prod.mk.inj (Except.ok.inj h)).1.symm
  · dsimp only at h
    rcases hs : multi.send fd _ with e | ⟨cnt, evs₁⟩ <;> rw [hs] at h
    · simp at h
    · exact .inr (Prod.mk.inj (Except.ok.inj h)).1.symm
  · exact .inl (Prod.mk.inj (Except.ok.inj h)).1.symm

theorem handleTcpAppRecv_multi (h : s.handleTcpAppRecv fd = .ok (s', evs)) :
    s'.multi = s.multi.recv.2.2.2 ∨ s'.multi = s.multi.recv.2.2.2.close fd := by
  have hd := handled s fd
  rw [h] at hd
  cases hd with
  | idle _ hm => exact .inl hm.symm
  | frame _ _ _ _ ha => exact answer_multi ha

/-- A step that goes on makes the actions of its kind. -/
theorem step_moved (h : s.step k = .ok (s', evs)) : ∃ as, Moved s k as s'.multi := by
  cases Server.turn_of_step h with
  | poll hpc => exact ⟨_, .poll (.inl hpc)⟩
  | first hpc hq => exact ⟨_, .poll (.inr ⟨hpc, hq⟩)⟩
  | select hpc hq => exact ⟨_, .select hpc hq⟩
  | stdin hat => exact ⟨_, .stay hat (.inl rfl)⟩
  | news hat h =>
    have hm := handleUdp_multi h
    dsimp only
    rw [hm]
    exact ⟨_, .stay hat (.inr (.inl rfl))⟩
  | accept hat h =>
    unfold MultiSocket.accept at h
    split_ifs at h
    obtain ⟨rfl, -⟩ := Prod.mk.inj (Except.ok.inj h)
    exact ⟨_, .accept hat⟩
  | closed hat => exact ⟨_, .stay hat (.inr (.inr rfl))⟩
  | recv hat h =>
    rcases handleTcpAppRecv_multi h with hm | hm <;> dsimp only <;> rw [hm]
    · exact ⟨_, .recv hat⟩
    · exact ⟨_, .refuse hat⟩

/-- What the branch that is taken makes of the object. -/
theorem Moved.of_at {as : List Action} {m : MultiSocket} {b : Branch} (h : Moved s k as m)
    (hat : s.At fd b) : (b ≠ .accept ∧ b ≠ .recv) ∨
      (b = .accept ∧ m = s.multi.opened k.newsockfd k.uninit) ∨
      (b = .recv ∧ (m = s.multi.recv.2.2.2 ∨ m = s.multi.recv.2.2.2.close fd)) := by
  cases h with
  | poll hpc => exact absurd hat (Server.not_at_of_pc (hpc.imp_right And.left) fd b)
  | select hpc => exact absurd hat (Server.not_at_of_pc (.inr hpc) fd b)
  | stay hat' hb =>
    obtain ⟨-, rfl⟩ := hat'.eq hat
    refine .inl ?_
    rcases hb with rfl | rfl | rfl <;> simp
  | accept hat' =>
    obtain ⟨-, rfl⟩ := hat'.eq hat
    exact .inr (.inl ⟨rfl, rfl⟩)
  | recv hat' =>
    obtain ⟨-, rfl⟩ := hat'.eq hat
    exact .inr (.inr ⟨rfl, .inl rfl⟩)
  | refuse hat' =>
    obtain ⟨rfl, rfl⟩ := hat'.eq hat
    exact .inr (.inr ⟨rfl, .inr rfl⟩)

theorem Moved.exec {as : List Action} {m : MultiSocket} (h : Moved s k as m)
    (hk : 0 ≤ k.newsockfd ∧ k.newsockfd ∉ s.multi.tcpSockets) :
    Runs.exec act s.multi as = some m := by
  cases h with
  | poll => rfl
  | select _ hq => simp [Runs.exec, act, hq]
  | stay => rfl
  | accept => simp [Runs.exec, act, hk]
  | recv => rfl
  | refuse => rfl

end Step

namespace World

section Step

variable {w w' : World} {k : Kernel}

theorem exec_of_next (hn : next w k = some w') : ∃ as, Moved w.server k as w'.server.multi ∧
    Runs.exec act w.server.multi as = some w'.server.multi := by
  obtain ⟨evs, hs, -, hpos, hopen⟩ := step_of_next hn
  obtain ⟨as, hm⟩ := step_moved hs
  exact ⟨as, hm, hm.exec ⟨hpos, fun hmem => hopen (.inr (.inr (.inr hmem)))⟩⟩

end Step

theorem Run.sound {udp tcp : ℤ} {buffer : Bytes} {tr : List (World × Kernel)} {w : World}
    (h : Run udp tcp buffer tr w) : w.server.multi.Sound := by
  refine Runs.Run.always (P := fun v : World => v.server.multi.Sound)
    (MultiSocket.sound_of_noSockets rfl) (fun v k v' hv hn => ?_) h
  obtain ⟨as, -, hexec⟩ := exec_of_next hn
  exact MultiSocket.Sound.exec hv hexec

end World

end NewsServer
