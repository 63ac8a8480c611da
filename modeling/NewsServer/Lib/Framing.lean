import NewsServer.Lib.Memory

/-!
# Length-prefixed frames

A stream of frames, each its length in `width` bytes, the highest first, and then its bytes.
`cut` takes the complete frames off the front of a stream. A frame of no bytes counts as complete
only when something follows its header, so a reader that waits for a byte before it finishes a
frame follows `cut` exactly.

Cutting a stream in two places is cutting it once (`cut_append`), and cutting what `enc` wrote
gives back the frames (`cut_enc`).
-/

open Memory

/-- Lengths lie in `width` bytes, and a frame has at most `limit` of them. -/
structure Framing where
  width : ℕ
  limit : ℕ
  width_pos : 0 < width
  limit_lt : limit < 256 ^ width

namespace Framing

variable (F : Framing)

/-- A frame on the wire. -/
def enc (p : Bytes) : Bytes :=
  beBytes F.width p.length ++ p

/-- The length the header at the front of a stream announces. -/
def announced (t : Bytes) : ℕ :=
  ofBeBytes (t.take F.width)

/-- The stream starts with the header of a frame that is too long. -/
def Oversize (t : Bytes) : Prop :=
  F.width ≤ t.length ∧ F.limit < F.announced t

instance (t : Bytes) : Decidable (F.Oversize t) :=
  inferInstanceAs (Decidable (_ ∧ _))

/-- The frame at the front of a stream, and the stream after it. -/
def next? (t : Bytes) : Option (Bytes × Bytes) :=
  if F.announced t ≤ F.limit ∧ F.width + max (F.announced t) 1 ≤ t.length then
    some ((t.drop F.width).take (F.announced t), t.drop (F.width + F.announced t))
  else none

@[simp] theorem length_enc (p : Bytes) : (F.enc p).length = F.width + p.length := by
  simp [enc]

theorem take_enc_append (p r : Bytes) :
    (F.enc p ++ r).take F.width = beBytes F.width p.length := by
  rw [enc, List.append_assoc, List.take_left' (length_beBytes _ _)]

theorem drop_enc_append (p r : Bytes) : (F.enc p ++ r).drop F.width = p ++ r := by
  rw [enc, List.append_assoc, List.drop_left' (length_beBytes _ _)]

theorem announced_enc {p : Bytes} (h : p.length ≤ F.limit) (r : Bytes) :
    F.announced (F.enc p ++ r) = p.length := by
  rw [announced, take_enc_append, ofBeBytes_beBytes (h.trans_lt F.limit_lt)]

theorem next?_enc {p : Bytes} (h : p.length ≤ F.limit) {r : Bytes} (hr : p = [] → r ≠ []) :
    F.next? (F.enc p ++ r) = some (p, r) := by
  have hlen : max p.length 1 ≤ p.length + r.length := by
    rcases p with _ | ⟨b, p⟩
    · have := List.length_pos_iff.2 (hr rfl)
      simp only [List.length_nil]
      omega
    · simp only [List.length_cons]
      omega
  have hdrop : (F.enc p ++ r).drop (F.width + p.length) = r := by
    rw [← List.drop_drop, drop_enc_append, List.drop_left]
  rw [next?, announced_enc F h, if_pos ⟨h, by rw [List.length_append, length_enc]; omega⟩,
    drop_enc_append, List.take_left, hdrop]

/-- What `next?` takes off a stream is a frame on the wire, and something is left behind an empty
one. -/
theorem eq_enc_of_next? {t p r : Bytes} (h : F.next? t = some (p, r)) :
    t = F.enc p ++ r ∧ p.length ≤ F.limit ∧ (p = [] → r ≠ []) := by
  unfold next? at h
  split_ifs at h with hc
  simp only [Option.some.injEq, Prod.mk.injEq] at h
  obtain ⟨rfl, rfl⟩ := h
  have hp : ((t.drop F.width).take (F.announced t)).length = F.announced t := by
    rw [List.length_take, List.length_drop]
    omega
  have hhead : beBytes F.width (F.announced t) = t.take F.width := by
    have hw : (t.take F.width).length = F.width := by
      rw [List.length_take]
      omega
    rw [announced]
    nth_rewrite 1 [← hw]
    exact beBytes_ofBeBytes _
  refine ⟨?_, hp.le.trans hc.1, fun hnil hr => ?_⟩
  · rw [enc, hp, hhead, ← List.drop_drop, List.append_assoc, List.take_append_drop,
      List.take_append_drop]
  · rw [hnil, List.length_nil] at hp
    have := List.drop_eq_nil_iff.1 hr
    omega

theorem next?_eq_some_iff {t p r : Bytes} :
    F.next? t = some (p, r) ↔ t = F.enc p ++ r ∧ p.length ≤ F.limit ∧ (p = [] → r ≠ []) := by
  refine ⟨eq_enc_of_next? F, ?_⟩
  rintro ⟨rfl, hp, hr⟩
  exact next?_enc F hp hr

theorem length_lt_of_next? {t p r : Bytes} (h : F.next? t = some (p, r)) :
    r.length < t.length := by
  obtain ⟨rfl, -, -⟩ := eq_enc_of_next? F h
  have := F.width_pos
  rw [List.length_append, length_enc]
  omega

/-- Bytes that come later do not change the frame at the front. -/
theorem next?_append {t p r : Bytes} (h : F.next? t = some (p, r)) (b : Bytes) :
    F.next? (t ++ b) = some (p, r ++ b) := by
  rw [next?_eq_some_iff] at h ⊢
  obtain ⟨rfl, hp, hr⟩ := h
  refine ⟨List.append_assoc _ _ _, hp, fun hnil => ?_⟩
  simpa using fun h0 : r = [] => absurd h0 (hr hnil)

theorem next?_eq_none_of_oversize {t : Bytes} (h : F.Oversize t) : F.next? t = none := by
  rw [next?, if_neg]
  rintro ⟨hle, -⟩
  exact absurd h.2 hle.not_gt

theorem oversize_append {t : Bytes} (h : F.Oversize t) (b : Bytes) : F.Oversize (t ++ b) := by
  refine ⟨h.1.trans (by simp), ?_⟩
  rw [announced, List.take_append_of_le_length h.1]
  exact h.2

/-- A stream starts with a whole frame. -/
def Whole (t : Bytes) : Prop :=
  ∃ p r, t = F.enc p ++ r ∧ p.length ≤ F.limit

/-- What `next?` does not take is the header of an empty frame and no more. -/
theorem whole_iff_of_next? {t : Bytes} (h : F.next? t = none) : F.Whole t ↔ t = F.enc [] := by
  constructor
  · rintro ⟨p, r, rfl, hp⟩
    by_contra hne
    refine absurd h ?_
    rw [next?_enc F hp]
    · simp
    · rintro rfl rfl
      exact hne (List.append_nil _)
  · rintro rfl
    exact ⟨[], [], (List.append_nil _).symm, Nat.zero_le _⟩

/-- The complete frames at the front of a stream, and what is left. -/
def cut (t : Bytes) : List Bytes × Bytes :=
  match _h : F.next? t with
  | none => ([], t)
  | some (p, r) => (p :: (cut r).1, (cut r).2)
termination_by t.length
decreasing_by all_goals exact length_lt_of_next? F _h

theorem cut_of_none {t : Bytes} (h : F.next? t = none) : F.cut t = ([], t) := by
  rw [cut]
  split
  · rfl
  · rename_i p r h'
    rw [h] at h'
    simp at h'

theorem cut_of_some {t p r : Bytes} (h : F.next? t = some (p, r)) :
    F.cut t = (p :: (F.cut r).1, (F.cut r).2) := by
  rw [cut]
  split
  · rename_i h'
    rw [h] at h'
    simp at h'
  · rename_i p' r' h'
    rw [h, Option.some.injEq, Prod.mk.injEq] at h'
    obtain ⟨rfl, rfl⟩ := h'
    rfl

theorem cut_fst_eq_nil_iff {t : Bytes} : (F.cut t).1 = [] ↔ F.next? t = none := by
  rcases h : F.next? t with _ | ⟨p, r⟩
  · simp [cut_of_none F h]
  · simp [cut_of_some F h]

@[simp] theorem cut_nil : F.cut [] = ([], []) := by
  refine cut_of_none F ?_
  rw [next?, if_neg]
  have := F.width_pos
  simp only [List.length_nil]
  omega

theorem cut_append (t b : Bytes) :
    F.cut (t ++ b) =
      ((F.cut t).1 ++ (F.cut ((F.cut t).2 ++ b)).1, (F.cut ((F.cut t).2 ++ b)).2) := by
  induction t using cut.induct F with
  | case1 t h => simp [cut_of_none F h]
  | case2 t p r h ih => rw [cut_of_some F h, cut_of_some F (next?_append F h b), ih]; simp

/-- The frames of a stream with no empty frame in it. -/
theorem cut_enc : ∀ {ps : List Bytes}, (∀ p ∈ ps, p ≠ [] ∧ p.length ≤ F.limit) →
    F.cut (ps.flatMap F.enc) = (ps, [])
  | [], _ => by simp
  | p :: ps, h => by
    obtain ⟨hp, hlen⟩ := h p List.mem_cons_self
    have ih := cut_enc fun q hq => h q (List.mem_cons_of_mem _ hq)
    rw [List.flatMap_cons, cut_of_some F (next?_enc F hlen fun h0 => absurd h0 hp), ih]

/-- What comes first of a stream of frames holds the first of them, and no header that is too
long. -/
theorem cut_of_isPrefix {ps : List Bytes} (h : ∀ p ∈ ps, p ≠ [] ∧ p.length ≤ F.limit) {t : Bytes}
    (ht : t <+: ps.flatMap F.enc) : (F.cut t).1 <+: ps ∧ ¬ F.Oversize (F.cut t).2 := by
  obtain ⟨b, hb⟩ := ht
  have happ := cut_append F t b
  rw [hb, cut_enc F h, Prod.mk.injEq] at happ
  obtain ⟨hfst, hsnd⟩ := happ
  refine ⟨⟨_, hfst.symm⟩, fun hbig => ?_⟩
  have hbig' := oversize_append F hbig b
  rw [cut_of_none F (next?_eq_none_of_oversize F hbig')] at hsnd
  have hlen := hbig'.1
  rw [show (F.cut t).2 ++ b = [] from hsnd.symm, List.length_nil] at hlen
  exact absurd hlen (not_le.2 F.width_pos)

/-! ## Streams that end -/

/-- The whole frames of a stream, one of no bytes at its end included. -/
def frames (t : Bytes) : List Bytes :=
  (F.cut t).1 ++ if (F.cut t).2 = F.enc [] then [[]] else []

/-- The frames of a stream that lie in its first `n` bytes. -/
def arrived : List Bytes → ℕ → List Bytes
  | [], _ => []
  | p :: ps, n =>
    if (F.enc p).length ≤ n then p :: arrived ps (n - (F.enc p).length) else []

/-- The frames and what is left are the stream. -/
theorem flatMap_cut (t : Bytes) : (F.cut t).1.flatMap F.enc ++ (F.cut t).2 = t := by
  induction t using cut.induct F with
  | case1 t h => simp [cut_of_none F h]
  | case2 t p r h ih =>
    rw [cut_of_some F h, List.flatMap_cons, List.append_assoc, ih, ← (eq_enc_of_next? F h).1]

theorem length_le_of_mem_cut (t : Bytes) : ∀ p ∈ (F.cut t).1, p.length ≤ F.limit := by
  induction t using cut.induct F with
  | case1 t h => simp [cut_of_none F h]
  | case2 t p r h ih =>
    rw [cut_of_some F h, List.forall_mem_cons]
    exact ⟨(eq_enc_of_next? F h).2.1, ih⟩

/-- Frames are cut off whatever they are, if something follows. -/
theorem cut_flatMap_append {r : Bytes} (hr : r ≠ []) : ∀ {ps : List Bytes},
    (∀ p ∈ ps, p.length ≤ F.limit) →
      F.cut (ps.flatMap F.enc ++ r) = (ps ++ (F.cut r).1, (F.cut r).2)
  | [], _ => by simp
  | p :: ps, h => by
    obtain ⟨hp, hps⟩ := List.forall_mem_cons.1 h
    have hne : ps.flatMap F.enc ++ r ≠ [] := by simp [hr]
    rw [List.flatMap_cons, List.append_assoc, cut_of_some F (next?_enc F hp fun _ => hne),
      cut_flatMap_append hr hps, List.cons_append]

/-- Nothing is cut off behind a header that is too long. -/
theorem cut_append_of_oversize {t : Bytes} (h : F.Oversize (F.cut t).2) (b : Bytes) :
    F.cut (t ++ b) = ((F.cut t).1, (F.cut t).2 ++ b) := by
  have hnone := next?_eq_none_of_oversize F (oversize_append F h b)
  rw [cut_append, cut_of_none F hnone, List.append_nil]

theorem not_oversize_of_isPrefix {t s : Bytes} (h : t <+: s) (hs : ¬ F.Oversize (F.cut s).2) :
    ¬ F.Oversize (F.cut t).2 := by
  obtain ⟨b, rfl⟩ := h
  intro ht
  rw [cut_append_of_oversize F ht] at hs
  exact hs (oversize_append F ht b)

theorem cut_isPrefix {t s : Bytes} (h : t <+: s) : (F.cut t).1 <+: (F.cut s).1 := by
  obtain ⟨b, rfl⟩ := h
  rw [cut_append]
  exact List.prefix_append _ _

theorem not_oversize_enc_nil : ¬ F.Oversize (F.enc []) := by
  have h := announced_enc F (p := []) (Nat.zero_le _) []
  rw [List.append_nil, List.length_nil] at h
  rintro ⟨-, hbig⟩
  omega

/-- The header alone decides that a frame is too long. -/
theorem oversize_take {t : Bytes} (h : F.Oversize t) : F.Oversize (t.take F.width) := by
  refine ⟨by rw [List.length_take, min_eq_left h.1], ?_⟩
  rw [announced, List.take_take, min_self]
  exact h.2

/-- The first frame of a stream is the first one that is cut off what has come of it. -/
theorem head_cut {p r t q : Bytes} {qs : List Bytes} (hp : p ≠ [] ∧ p.length ≤ F.limit)
    (ht : t <+: F.enc p ++ r) (hcut : (F.cut t).1 = q :: qs) : q = p := by
  obtain ⟨b, hb⟩ := ht
  rcases hn : F.next? t with _ | ⟨x, y⟩
  · simp [cut_of_none F hn] at hcut
  rw [cut_of_some F hn] at hcut
  obtain ⟨rfl, -⟩ := List.cons.inj hcut
  have happ := next?_append F hn b
  rw [hb, next?_enc F hp.2 fun h0 => absurd h0 hp.1, Option.some.injEq, Prod.mk.injEq] at happ
  exact happ.1.symm

/-! ## Streams that have come in part -/

theorem arrived_isPrefix : ∀ (ps : List Bytes) (n : ℕ), F.arrived ps n <+: ps
  | [], _ => List.prefix_rfl
  | p :: ps, n => by
    rw [arrived]
    split_ifs
    · exact List.prefix_cons_inj p |>.2 (arrived_isPrefix ps _)
    · exact List.nil_prefix

theorem enc_ne_nil (p : Bytes) : F.enc p ≠ [] := by
  intro h
  have hlen := length_enc F p
  have := F.width_pos
  rw [h, List.length_nil] at hlen
  omega

/-- The header of an empty frame is not taken before something follows it. -/
theorem next?_enc_nil : F.next? (F.enc []) = none := by
  have hann := announced_enc F (p := []) (Nat.zero_le _) []
  rw [List.append_nil] at hann
  rw [next?, if_neg]
  rw [hann, length_enc, List.length_nil]
  omega

theorem frames_enc_append {p : Bytes} (h : p.length ≤ F.limit) (r : Bytes) :
    F.frames (F.enc p ++ r) = p :: F.frames r := by
  by_cases hnil : p = [] ∧ r = []
  · obtain ⟨rfl, rfl⟩ := hnil
    have hne := (enc_ne_nil F []).symm
    rw [List.append_nil, frames, cut_of_none F (next?_enc_nil F), frames, cut_nil, if_pos rfl,
      if_neg hne]
    rfl
  · have hr : p = [] → r ≠ [] := fun hp hr => hnil ⟨hp, hr⟩
    rw [frames, cut_of_some F (next?_enc F h hr), frames, List.cons_append]

theorem not_oversize_enc_append {p r : Bytes} (h : p.length ≤ F.limit)
    (hr : ¬ F.Oversize (F.cut r).2) : ¬ F.Oversize (F.cut (F.enc p ++ r)).2 := by
  by_cases hnil : p = [] ∧ r = []
  · obtain ⟨rfl, rfl⟩ := hnil
    rw [List.append_nil, cut_of_none F (next?_enc_nil F)]
    exact not_oversize_enc_nil F
  · rwa [cut_of_some F (next?_enc F h fun hp hr => hnil ⟨hp, hr⟩)]

/-- What has come of a stream of frames holds the frames all of whose bytes have come, and no header
that is too long. -/
theorem frames_of_isPrefix : ∀ {ps : List Bytes} {t : Bytes}, (∀ p ∈ ps, p.length ≤ F.limit) →
    t <+: ps.flatMap F.enc → F.frames t = F.arrived ps t.length ∧ ¬ F.Oversize (F.cut t).2
  | [], t, _, ht => by
    rw [List.flatMap_nil, List.prefix_nil] at ht
    have := F.width_pos
    rw [ht, frames, cut_nil, if_neg (enc_ne_nil F []).symm]
    refine ⟨rfl, fun hbig => ?_⟩
    have := hbig.1
    rw [List.length_nil] at this
    omega
  | p :: ps, t, h, ht => by
    obtain ⟨hp, hps⟩ := List.forall_mem_cons.1 h
    rw [List.flatMap_cons] at ht
    by_cases hlen : (F.enc p).length ≤ t.length
    · obtain ⟨r, rfl⟩ := List.prefix_of_prefix_length_le (List.prefix_append _ _) ht hlen
      obtain ⟨hfr, hbig⟩ := frames_of_isPrefix hps ((List.prefix_append_right_inj _).1 ht)
      rw [frames_enc_append F hp, hfr, arrived, if_pos hlen, List.length_append,
        Nat.add_sub_cancel_left]
      exact ⟨rfl, not_oversize_enc_append F hp hbig⟩
    · have hann := announced_enc F hp (ps.flatMap F.enc)
      have hnone : F.next? t = none := by
        rw [← Option.not_isSome_iff_eq_none, Option.isSome_iff_exists]
        rintro ⟨⟨q, r⟩, hq⟩
        obtain ⟨rfl, hqlen, -⟩ := eq_enc_of_next? F hq
        obtain ⟨b, hb⟩ := ht
        rw [← hb, List.append_assoc, announced_enc F hqlen] at hann
        rw [List.length_append, length_enc, length_enc] at hlen
        omega
      have hne : t ≠ F.enc [] := by
        rintro rfl
        obtain ⟨b, hb⟩ := ht
        rw [← hb, announced_enc F (Nat.zero_le _)] at hann
        rw [length_enc, length_enc] at hlen
        omega
      rw [frames, cut_of_none F hnone, if_neg hne, arrived, if_neg hlen]
      refine ⟨rfl, fun hbig => ?_⟩
      obtain ⟨b, hb⟩ := ht
      have hfull := (oversize_append F hbig b).2
      rw [hb, hann] at hfull
      omega

/-- What of a stream of frames has come ends with the header of an empty one exactly if that is what
is left of it. -/
theorem snd_cut_eq_enc_nil_iff {ps : List Bytes} {t : Bytes} (h : ∀ p ∈ ps, p.length ≤ F.limit)
    (ht : t <+: ps.flatMap F.enc) : (F.cut t).2 = F.enc [] ↔
      ∃ qs rs, ps = qs ++ [] :: rs ∧ t = qs.flatMap F.enc ++ F.enc [] := by
  constructor
  · intro hcut
    have hfr := (frames_of_isPrefix F h ht).1
    rw [frames, if_pos hcut] at hfr
    obtain ⟨rs, hrs⟩ := arrived_isPrefix F ps t.length
    refine ⟨(F.cut t).1, rs, ?_, ?_⟩
    · rw [← hrs, ← hfr, List.append_assoc]
      rfl
    · rw [← hcut, flatMap_cut]
  · rintro ⟨qs, rs, rfl, rfl⟩
    have hqs : ∀ q ∈ qs, q.length ≤ F.limit := fun q hq => h q (List.mem_append_left _ hq)
    rw [cut_flatMap_append F (enc_ne_nil F []) hqs, cut_of_none F (next?_enc_nil F)]

end Framing
