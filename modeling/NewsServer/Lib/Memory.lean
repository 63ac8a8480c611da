import Mathlib

/-!
# Bytes in memory

What `memcpy` and the C string functions make of arrays of bytes, and how a number lies in memory
in either byte order.

An array is the list of its bytes. A read of a C string stops at the first NUL (`cstr`); a write
over part of an array keeps what lies before and after it (`overwrite`).
-/

abbrev Bytes := List UInt8

namespace Memory

/-! ## Copies -/

/-- `memcpy(dst + off, src, n)`, `n` being the length of `src`. -/
def overwrite (dst : Bytes) (off : ℕ) (src : Bytes) : Bytes :=
  dst.take off ++ src ++ dst.drop (off + src.length)

@[simp] theorem length_overwrite {dst src : Bytes} {off : ℕ}
    (h : off + src.length ≤ dst.length) : (overwrite dst off src).length = dst.length := by
  simp only [overwrite, List.length_append, List.length_take, List.length_drop]
  omega

theorem take_overwrite {dst src : Bytes} {off : ℕ} (h : off ≤ dst.length) :
    (overwrite dst off src).take (off + src.length) = dst.take off ++ src := by
  have hlen : (dst.take off ++ src).length = off + src.length := by
    rw [List.length_append, List.length_take, min_eq_left h]
  rw [overwrite, List.take_left' hlen]

theorem overwrite_overwrite {dst src src' : Bytes} {off : ℕ}
    (h : off + src.length + src'.length ≤ dst.length) :
    overwrite (overwrite dst off src) (off + src.length) src' =
      overwrite dst off (src ++ src') := by
  have htake : (overwrite dst off src).take (off + src.length) = dst.take off ++ src :=
    take_overwrite (by omega)
  have hdrop : (overwrite dst off src).drop (off + src.length + src'.length)
      = dst.drop (off + src.length + src'.length) := by
    have hlen : (dst.take off ++ src).length = off + src.length := by
      rw [List.length_append, List.length_take, min_eq_left (by omega)]
    rw [overwrite, ← List.drop_drop, List.drop_left' hlen, List.drop_drop]
  rw [overwrite, htake, hdrop, overwrite, List.length_append, ← Nat.add_assoc]
  simp only [List.append_assoc]

/-- `memcpy(dst + off, src, n)`, if it stays inside both arrays. -/
def memcpy? (dst : Bytes) (off : ℕ) (src : Bytes) (n : ℕ) : Option Bytes :=
  if off + n ≤ dst.length ∧ n ≤ src.length then some (overwrite dst off (src.take n)) else none

theorem memcpy?_eq_some {dst src : Bytes} {off n : ℕ} (h : off + n ≤ dst.length)
    (hn : n ≤ src.length) : memcpy? dst off src n = some (overwrite dst off (src.take n)) :=
  if_pos ⟨h, hn⟩

/-! ## C strings -/

/-- The C string that starts an array: its bytes up to the first NUL. -/
def cstr (buf : Bytes) : Bytes :=
  buf.takeWhile (· ≠ 0)

theorem cstr_append_of_notMem {s : Bytes} (h : 0 ∉ s) (rest : Bytes) :
    cstr (s ++ rest) = s ++ cstr rest := by
  have hs : ∀ b ∈ s, decide (b ≠ 0) = true := by
    intro b hb
    simpa using fun h0 : b = 0 => h (h0 ▸ hb)
  rw [cstr, List.takeWhile_append_of_pos hs, cstr]

theorem cstr_append_nul {s : Bytes} (h : 0 ∉ s) (rest : Bytes) : cstr (s ++ 0 :: rest) = s := by
  have hnil : cstr (0 :: rest) = [] := by simp [cstr]
  rw [cstr_append_of_notMem h, hnil, List.append_nil]

theorem cstr_of_notMem {s : Bytes} (h : 0 ∉ s) : cstr s = s := by
  have := cstr_append_of_notMem h []
  rwa [List.append_nil, show cstr [] = [] from rfl, List.append_nil] at this

/-- What is behind a NUL is not part of the string. -/
theorem cstr_append_zero (s rest : Bytes) : cstr (s ++ 0 :: rest) = cstr s := by
  by_cases h : 0 ∈ s
  · obtain ⟨l, r, rfl, hl⟩ := List.eq_append_cons_of_mem h
    rw [List.append_assoc, List.cons_append, cstr_append_nul hl, cstr_append_nul hl]
  · rw [cstr_append_nul h, cstr_of_notMem h]

theorem notMem_cstr (buf : Bytes) : 0 ∉ cstr buf := by
  intro h
  have := List.mem_takeWhile_imp h
  simp at this

/-- `strncpy(dst, src, n)` over an array of `n` bytes: the C string at `src`, cut at `n` bytes or
filled up to them with NULs. -/
def strncpy (n : ℕ) (src : Bytes) : Bytes :=
  (cstr src).take n ++ List.replicate (n - (cstr src).length) 0

/-- `strnlen(s, n)`. -/
def strnlen (n : ℕ) (buf : Bytes) : ℕ :=
  min n (cstr buf).length

/-- What `strncpy` puts in a field reads back as the string, cut at the field's length. -/
@[simp] theorem cstr_strncpy (n : ℕ) (src : Bytes) : cstr (strncpy n src) = (cstr src).take n := by
  have hmem : 0 ∉ (cstr src).take n := fun h => notMem_cstr src (List.mem_of_mem_take h)
  rw [strncpy]
  rcases n - (cstr src).length with _ | k
  · simpa using cstr_of_notMem hmem
  · rw [List.replicate_succ]
    exact cstr_append_nul hmem _

/-- `strncmp(p, q, n) == 0` -/
def strncmpEq (p q : Bytes) (n : ℕ) : Bool :=
  (cstr p).take n = (cstr q).take n

/-- `strtok` at a position of a string: the next token, and the position after it. -/
def strtok (delims s : Bytes) : Option (Bytes × Bytes) :=
  match s.dropWhile (· ∈ delims) with
  | [] => none
  | b :: s => some ((b :: s).takeWhile (· ∉ delims), ((b :: s).dropWhile (· ∉ delims)).drop 1)

/-- A token at the position, and what comes after its delimiter. -/
theorem strtok_token {delims tok rest : Bytes} {d : UInt8} (htok : tok ≠ [])
    (h : ∀ b ∈ tok, b ∉ delims) (hd : d ∈ delims) :
    strtok delims (tok ++ d :: rest) = some (tok, rest) := by
  have hkeep : ∀ b ∈ tok, decide (b ∉ delims) = true := fun b hb => by simpa using h b hb
  obtain ⟨b, tok', rfl⟩ := List.exists_cons_of_ne_nil htok
  have hb : b ∉ delims := h b List.mem_cons_self
  have hdrop : (b :: tok' ++ d :: rest).dropWhile (· ∈ delims) = b :: (tok' ++ d :: rest) := by
    simp [hb]
  rw [strtok, hdrop]
  simp only [← List.cons_append]
  rw [List.takeWhile_append_of_pos hkeep, List.dropWhile_append_of_pos hkeep]
  simp [hd]

theorem strtok_last {delims tok : Bytes} (htok : tok ≠ []) (h : ∀ b ∈ tok, b ∉ delims) :
    strtok delims tok = some (tok, []) := by
  have hkeep : ∀ b ∈ tok, decide (b ∉ delims) = true := fun b hb => by simpa using h b hb
  obtain ⟨b, tok', rfl⟩ := List.exists_cons_of_ne_nil htok
  have hdrop : (b :: tok').dropWhile (· ∈ delims) = b :: tok' := by
    simp [h b List.mem_cons_self]
  rw [strtok, hdrop]
  simp only
  rw [List.takeWhile_eq_self_iff.2 hkeep, List.dropWhile_eq_nil_iff.2 hkeep]
  rfl

/-- The tokens of a string: what lies between delimiters, where anything does. -/
def tokens (delims s : Bytes) : List Bytes :=
  (s.splitOnP (· ∈ delims)).filter (· ≠ [])

theorem tokens_nil (delims : Bytes) : tokens delims [] = [] := rfl

theorem tokens_append {delims tok rest : Bytes} {d : UInt8} (h : ∀ b ∈ tok, b ∉ delims)
    (hd : d ∈ delims) :
    tokens delims (tok ++ d :: rest) = if tok = [] then tokens delims rest
      else tok :: tokens delims rest := by
  rw [tokens, List.splitOnP_append_cons_of_forall_mem (by simpa using h) _ (by simpa using hd)]
  split_ifs with htok
  · rw [htok, List.filter_cons_of_neg (by simp), tokens]
  · rw [List.filter_cons_of_pos (by simpa using htok), tokens]

theorem tokens_of_forall {delims tok : Bytes} (htok : tok ≠ []) (h : ∀ b ∈ tok, b ∉ delims) :
    tokens delims tok = [tok] := by
  rw [tokens, List.splitOnP_eq_singleton (by simpa using h), List.filter_singleton]
  simp [htok]

theorem tokens_dropWhile (delims : Bytes) : ∀ s : Bytes,
    tokens delims (s.dropWhile (· ∈ delims)) = tokens delims s
  | [] => rfl
  | b :: s => by
    by_cases hb : b ∈ delims
    · rw [List.dropWhile_cons_of_pos (by simpa using hb), tokens_dropWhile delims s]
      exact (@tokens_append delims [] s b (by simp) hb).symm
    · rw [List.dropWhile_cons_of_neg (by simpa using hb)]

/-- `strtok` takes the tokens off one by one. -/
theorem tokens_eq (delims s : Bytes) : tokens delims s =
    match strtok delims s with
    | none => []
    | some (tok, rest) => tok :: tokens delims rest := by
  rw [← tokens_dropWhile, strtok]
  rcases hdrop : s.dropWhile (· ∈ delims) with _ | ⟨b, s'⟩
  · rfl
  have hb : b ∉ delims := by
    have hhead := List.head_dropWhile_not (p := (· ∈ delims)) (l := s) (by simp [hdrop])
    simpa [hdrop] using hhead
  have htok : (b :: s').takeWhile (· ∉ delims) ≠ [] := by
    rw [List.takeWhile_cons_of_pos (by simpa using hb)]
    simp
  have hall : ∀ c ∈ (b :: s').takeWhile (· ∉ delims), c ∉ delims := by
    intro c hc
    simpa using List.mem_takeWhile_imp hc
  dsimp only
  conv_lhs => rw [← List.takeWhile_append_dropWhile (p := (· ∉ delims)) (l := b :: s')]
  rcases hrest : (b :: s').dropWhile (· ∉ delims) with _ | ⟨d, rest⟩
  · rw [List.append_nil, tokens_of_forall htok hall, List.drop_nil, tokens_nil]
  · have hd : d ∈ delims := by
      have hne : (b :: s').dropWhile (· ∉ delims) ≠ [] := hrest ▸ List.cons_ne_nil d rest
      have hhead := List.head_dropWhile_not _ hne
      simp only [hrest, List.head_cons] at hhead
      simpa using hhead
    rw [tokens_append hall hd, if_neg htok, List.drop_succ_cons, List.drop_zero]

theorem mem_of_mem_splitOnP {p : UInt8 → Bool} {s : Bytes} :
    ∀ {seg : Bytes}, seg ∈ s.splitOnP p → ∀ b ∈ seg, b ∈ s ∧ p b = false := by
  induction s with
  | nil =>
    intro seg h b hb
    rw [List.splitOnP_nil, List.mem_singleton] at h
    rw [h] at hb
    exact absurd hb List.not_mem_nil
  | cons c s ih =>
    intro seg h b hb
    rw [List.splitOnP_cons_eq_if_modifyHead] at h
    split_ifs at h with hc
    · rcases List.mem_cons.1 h with rfl | h
      · exact absurd hb List.not_mem_nil
      · exact ⟨List.mem_cons_of_mem _ (ih h b hb).1, (ih h b hb).2⟩
    · rcases hsegs : s.splitOnP p with _ | ⟨seg', segs⟩ <;> rw [hsegs] at h ih
      · exact absurd h List.not_mem_nil
      rcases List.mem_cons.1 h with rfl | h
      · rcases List.mem_cons.1 hb with rfl | hb
        · exact ⟨List.mem_cons_self, by simpa using hc⟩
        · have hmem := ih List.mem_cons_self b hb
          exact ⟨List.mem_cons_of_mem _ hmem.1, hmem.2⟩
      · have hmem := ih (List.mem_cons_of_mem _ h) b hb
        exact ⟨List.mem_cons_of_mem _ hmem.1, hmem.2⟩

/-- A token has only bytes of the string, and no delimiter. -/
theorem mem_tokens {delims s tok : Bytes} (h : tok ∈ tokens delims s) :
    tok ≠ [] ∧ ∀ b ∈ tok, b ∈ s ∧ b ∉ delims := by
  rw [tokens, List.mem_filter] at h
  refine ⟨by simpa using h.2, fun b hb => ?_⟩
  simpa using mem_of_mem_splitOnP h.1 b hb

/-! ## Numbers -/

/-- The `n` bytes of a number, the lowest first. -/
def leBytes : ℕ → ℕ → Bytes
  | 0, _ => []
  | n + 1, v => UInt8.ofNat v :: leBytes n (v / 256)

/-- The number that bytes make, the lowest first. -/
def ofLeBytes : Bytes → ℕ
  | [] => 0
  | b :: bs => b.toNat + 256 * ofLeBytes bs

/-- The `n` bytes of a number, the highest first. -/
def beBytes (n v : ℕ) : Bytes :=
  (leBytes n v).reverse

/-- The number that bytes make, the highest first. -/
def ofBeBytes (bs : Bytes) : ℕ :=
  ofLeBytes bs.reverse

@[simp] theorem length_leBytes : ∀ n v : ℕ, (leBytes n v).length = n
  | 0, _ => rfl
  | n + 1, v => by rw [leBytes, List.length_cons, length_leBytes n]

@[simp] theorem length_beBytes (n v : ℕ) : (beBytes n v).length = n := by
  rw [beBytes, List.length_reverse, length_leBytes]

theorem ofLeBytes_lt : ∀ bs : Bytes, ofLeBytes bs < 256 ^ bs.length
  | [] => by simp [ofLeBytes]
  | b :: bs => by
    have hb := b.toNat_lt
    have ih := ofLeBytes_lt bs
    rw [ofLeBytes, List.length_cons, pow_succ]
    omega

theorem ofLeBytes_leBytes : ∀ {n v : ℕ}, v < 256 ^ n → ofLeBytes (leBytes n v) = v
  | 0, v, h => by
    simp only [pow_zero, Nat.lt_one_iff] at h
    simp [leBytes, ofLeBytes, h]
  | n + 1, v, h => by
    have hv : v / 256 < 256 ^ n := by
      rw [pow_succ] at h
      omega
    rw [leBytes, ofLeBytes, ofLeBytes_leBytes hv, UInt8.toNat_ofNat']
    omega

theorem leBytes_ofLeBytes : ∀ bs : Bytes, leBytes bs.length (ofLeBytes bs) = bs
  | [] => rfl
  | b :: bs => by
    have hb := b.toNat_lt
    have hhead : UInt8.ofNat (b.toNat + 256 * ofLeBytes bs) = b := by
      apply UInt8.toNat_inj.mp
      rw [UInt8.toNat_ofNat']
      omega
    have htail : (b.toNat + 256 * ofLeBytes bs) / 256 = ofLeBytes bs := by omega
    rw [List.length_cons, ofLeBytes, leBytes, hhead, htail, leBytes_ofLeBytes bs]

theorem ofBeBytes_beBytes {n v : ℕ} (h : v < 256 ^ n) : ofBeBytes (beBytes n v) = v := by
  rw [ofBeBytes, beBytes, List.reverse_reverse, ofLeBytes_leBytes h]

theorem beBytes_ofBeBytes (bs : Bytes) : beBytes bs.length (ofBeBytes bs) = bs := by
  rw [beBytes, ofBeBytes, ← List.length_reverse, leBytes_ofLeBytes, List.reverse_reverse]

/-! ### Host and network order, on a little-endian host -/

/-- The `uint32_t` whose memory is `bs`. -/
def word (bs : Bytes) : UInt32 :=
  UInt32.ofNat (ofLeBytes bs)

/-- The memory of a `uint32_t`. -/
def wordBytes (v : UInt32) : Bytes :=
  leBytes 4 v.toNat

/-- `ntohl`, and `htonl`: the word whose memory is `v`'s the other way round. -/
def ntohl (v : UInt32) : UInt32 :=
  word (wordBytes v).reverse

/-- The memory of a `uint16_t`. -/
def halfBytes (v : UInt16) : Bytes :=
  leBytes 2 v.toNat

/-- The `uint16_t` whose memory is `bs`. -/
def half (bs : Bytes) : UInt16 :=
  UInt16.ofNat (ofLeBytes bs)

/-- `htons`, and `ntohs`. -/
def htons (v : UInt16) : UInt16 :=
  UInt16.ofNat (ofBeBytes (halfBytes v))

@[simp] theorem length_halfBytes (v : UInt16) : (halfBytes v).length = 2 :=
  length_leBytes 2 _

@[simp] theorem length_wordBytes (v : UInt32) : (wordBytes v).length = 4 :=
  length_leBytes 4 _

theorem toNat_word {bs : Bytes} (h : bs.length = 4) : (word bs).toNat = ofLeBytes bs := by
  have hlt := ofLeBytes_lt bs
  rw [h] at hlt
  rw [word, UInt32.toNat_ofNat']
  exact Nat.mod_eq_of_lt (by simpa using hlt)

theorem wordBytes_word {bs : Bytes} (h : bs.length = 4) : wordBytes (word bs) = bs := by
  rw [wordBytes, toNat_word h, ← h, leBytes_ofLeBytes]

theorem toNat_ntohl (v : UInt32) : (ntohl v).toNat = ofBeBytes (wordBytes v) := by
  rw [ntohl, toNat_word (by simp), ofBeBytes]

theorem wordBytes_ntohl (v : UInt32) : wordBytes (ntohl v) = beBytes 4 v.toNat := by
  rw [ntohl, wordBytes_word (by simp), wordBytes, beBytes]

theorem half_halfBytes (v : UInt16) : half (halfBytes v) = v := by
  have hv : v.toNat < 256 ^ 2 := v.toNat_lt
  rw [half, halfBytes, ofLeBytes_leBytes hv, UInt16.ofNat_toNat]

theorem halfBytes_htons (v : UInt16) : halfBytes (htons v) = (halfBytes v).reverse := by
  have hlt := ofLeBytes_lt (halfBytes v).reverse
  rw [List.length_reverse, length_halfBytes] at hlt
  have hlen : (halfBytes v).reverse.length = 2 := by simp
  have hnat : (htons v).toNat = ofLeBytes (halfBytes v).reverse := by
    rw [htons, UInt16.toNat_ofNat', ofBeBytes]
    exact Nat.mod_eq_of_lt hlt
  have hbytes := leBytes_ofLeBytes (halfBytes v).reverse
  rw [hlen] at hbytes
  rw [halfBytes, hnat, hbytes]

theorem htons_htons (v : UInt16) : htons (htons v) = v := by
  rw [htons, halfBytes_htons, ofBeBytes, List.reverse_reverse]
  exact half_halfBytes v

theorem toNat_ntohl_word {bs : Bytes} (h : bs.length = 4) :
    (ntohl (word bs)).toNat = ofBeBytes bs := by
  rw [toNat_ntohl, wordBytes_word h]

end Memory
