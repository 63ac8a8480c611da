import NewsServer.Proofs.Handlers

/-!
# The fields of a command

`process_tcp_client_packet` reads the id or the topic of a frame as a C string, which ends at a NUL
wherever one is, not at the end of the field. So two commands with the same field are the same
command exactly if the string of each ends with its field.
-/

namespace NewsServer

open Memory

/-- The length of the field of a command: an id for `AUTH`, else a topic. -/
def fieldLen (type : UInt8) : ℕ :=
  if type = typeAuth then clientIdLen else topicLen

/-- The types of commands that have a field. -/
def IsCommand (type : UInt8) : Prop :=
  type = typeAuth ∨ type = typeSub ∨ type = typeSubSf ∨ type = typeUnsub

instance (type : UInt8) : Decidable (IsCommand type) :=
  inferInstanceAs (Decidable (_ ∨ _))

/-- The field of a frame as its format has it, where a frame that is too short is filled up with
NULs. -/
def formatField (buf : Bytes) : Bytes :=
  let field := (buf.drop 1).take (fieldLen (frameType buf))
  field ++ List.replicate (fieldLen (frameType buf) - field.length) 0

/-- The string ends with the field: there is a NUL in it, or the first byte behind it is one, or
there is none. -/
def EndsInField (buf : Bytes) : Prop :=
  0 ∈ formatField buf ∨ (buf.drop (1 + fieldLen (frameType buf))).headD 0 = 0

instance (buf : Bytes) : Decidable (EndsInField buf) :=
  inferInstanceAs (Decidable (_ ∨ _))

section Frame

variable {buf : Bytes}

theorem process_eq_command (t : Tables) (fd : ℤ) (h : buf.length ≤ cliPacketSize) :
    processTcpClientPacket t fd buf buf.length =
      .ok (command t fd (frameType buf) (frameField buf)) := by
  rw [process_take t fd buf h, List.take_length]

theorem cstr_eq_nil_iff (s : Bytes) : cstr s = [] ↔ s.headD 0 = 0 := by
  rcases s with _ | ⟨b, s⟩
  · simp [cstr]
  · by_cases hb : b = 0 <;> simp [cstr, hb]

/-- The string that starts at a field of `n` bytes is the one in the field exactly if it ends
there. -/
theorem cstr_field_iff (n : ℕ) (rest : Bytes) :
    cstr (rest ++ [0]) = cstr (rest.take n ++ List.replicate (n - (rest.take n).length) 0) ↔
      0 ∈ rest.take n ++ List.replicate (n - (rest.take n).length) 0 ∨
        (rest.drop n).headD 0 = 0 := by
  have hrest : rest ++ [0] = rest.take n ++ (rest.drop n ++ [0]) := by
    rw [← List.append_assoc, List.take_append_drop]
  by_cases h0 : 0 ∈ rest.take n
  · refine iff_of_true ?_ (.inl (List.mem_append_left _ h0))
    obtain ⟨a, b, hab, ha⟩ := List.eq_append_cons_of_mem h0
    rw [hrest, hab, List.append_assoc, List.append_assoc, List.cons_append, List.cons_append,
      cstr_append_nul ha, cstr_append_nul ha]
  have hdrop : (rest.drop n ++ [0]).headD 0 = (rest.drop n).headD 0 := by
    rcases rest.drop n with _ | ⟨b, s⟩ <;> rfl
  rw [hrest, cstr_append_of_notMem h0, cstr_append_of_notMem h0, List.append_cancel_left_eq]
  rcases hpad : n - (rest.take n).length with _ | k
  · have hnil : cstr (List.replicate 0 0) = [] := rfl
    rw [hnil, cstr_eq_nil_iff, hdrop]
    simp [h0]
  · have hshort : rest.length < n := by
      rw [List.length_take] at hpad
      omega
    have hnil : cstr (List.replicate (k + 1) 0) = [] := by simp [cstr, List.replicate_succ]
    rw [hnil, cstr_eq_nil_iff, List.drop_of_length_le hshort.le]
    exact iff_of_true rfl (.inr rfl)

theorem frameField_eq_iff (h : IsCommand (frameType buf)) :
    frameField buf = cstr (formatField buf) ↔ EndsInField buf := by
  rcases buf with _ | ⟨type, rest⟩
  · exact absurd h (by decide)
  · rw [EndsInField, Nat.add_comm, List.drop_succ_cons]
    exact cstr_field_iff (fieldLen (frameType (type :: rest))) rest

end Frame

/-- No two ids, and no two topics, are the same to a command. -/
theorem command_key_inj {type : UInt8} (h : IsCommand type) {key key' : Bytes}
    (heq : ∀ t fd, command t fd type key = command t fd type key') : key = key' := by
  have hsame := congrArg Prod.snd (heq ⟨∅, ∅, (∅ : IdMap).insert 0 []⟩ 0)
  have hid : ((∅ : IdMap).insert 0 [])[(0 : ℤ)]? = some [] := Std.TreeMap.getElem?_insert_self
  have hfree : ∀ id, userOf (∅ : ClientMap) id = none := fun id => by simp [userOf, default]
  have htopics : ∀ ids ids' : Std.TreeMap Bytes UInt8,
      (∅ : TopicMap).insert key ids = (∅ : TopicMap).insert key' ids' → key = key' := by
    intro ids ids' hins
    have hmem : key ∈ (∅ : TopicMap).insert key' ids' := hins ▸ by simp
    rw [Std.TreeMap.mem_insert, Std.compare_eq_iff_eq] at hmem
    exact (hmem.resolve_right (by simp)).symm
  unfold command at hsame
  simp only [hfree, hid] at hsame
  rcases h with rfl | rfl | rfl | rfl
  · have hids := congrArg (fun t : Tables => t.idsMap[(0 : ℤ)]?) hsame
    simpa using hids
  · exact htopics _ _ (congrArg Tables.topicMap hsame)
  · exact htopics _ _ (congrArg Tables.topicMap hsame)
  · exact htopics _ _ (congrArg Tables.topicMap hsame)

/-- Commands of the same type with the same field do the same, with the string in that field as
their key, exactly if that string ends with the field in both. -/
theorem command_fields_iff {f g : Bytes} (hf : f.length ≤ cliPacketDataSize)
    (hg : g.length ≤ cliPacketDataSize) (hcommand : IsCommand (frameType f))
    (htype : frameType f = frameType g) (hfield : formatField f = formatField g) :
    (∀ t fd, processTcpClientPacket t fd f f.length = processTcpClientPacket t fd g g.length ∧
      processTcpClientPacket t fd f f.length =
        .ok (command t fd (frameType f) (cstr (formatField f)))) ↔
      EndsInField f ∧ EndsInField g := by
  have hcommand' : IsCommand (frameType g) := htype ▸ hcommand
  have hf' : f.length ≤ cliPacketSize := hf.trans (by decide)
  have hg' : g.length ≤ cliPacketSize := hg.trans (by decide)
  rw [← frameField_eq_iff hcommand, ← frameField_eq_iff hcommand', ← hfield]
  simp only [process_eq_command _ _ hf', process_eq_command _ _ hg', ← htype, Except.ok.injEq]
  constructor
  · intro h
    have hkey := command_key_inj hcommand fun t fd => (h t fd).2
    exact ⟨hkey, command_key_inj hcommand fun t fd => (h t fd).1.symm.trans (h t fd).2⟩
  · rintro ⟨hkf, hkg⟩ t fd
    rw [hkf, hkg]
    exact ⟨rfl, rfl⟩

/-- An id that does not fill its field, and something behind the field. -/
theorem command_fields_iff_short :
    EndsInField [1, 65] ∧ EndsInField [1, 65, 0, 0, 0, 0, 0, 0, 0, 0, 0, 0, 98] ∧
      ∀ t fd, processTcpClientPacket t fd [1, 65] 2 =
          processTcpClientPacket t fd [1, 65, 0, 0, 0, 0, 0, 0, 0, 0, 0, 0, 98] 13 ∧
        processTcpClientPacket t fd [1, 65] 2 = .ok (command t fd 1 [65]) := by
  refine ⟨by decide, by decide, ?_⟩
  exact (command_fields_iff (f := [1, 65]) (g := [1, 65, 0, 0, 0, 0, 0, 0, 0, 0, 0, 0, 98])
    (by decide) (by decide) (by decide) (by decide) (by decide)).2 (by decide)

/-- An `AUTH` whose id fills its field, `last` being what is behind it. -/
def fullAuth (last : Bytes) : Bytes :=
  typeAuth :: List.replicate clientIdLen 97 ++ last

/-- What follows an id that fills its field is part of it. -/
theorem not_command_fields_full :
    frameType (fullAuth []) = frameType (fullAuth [98]) ∧
      formatField (fullAuth []) = formatField (fullAuth [98]) ∧
      ¬ ∀ t fd, processTcpClientPacket t fd (fullAuth []) (fullAuth []).length =
        processTcpClientPacket t fd (fullAuth [98]) (fullAuth [98]).length := by
  refine ⟨by decide, by decide, fun h => ?_⟩
  have hkey : frameField (fullAuth []) ≠ frameField (fullAuth [98]) := by decide
  refine hkey (command_key_inj (.inl rfl : IsCommand typeAuth) fun t fd => ?_)
  have heq := h t fd
  rw [process_eq_command t fd (by decide), process_eq_command t fd (by decide)] at heq
  exact Except.ok.inj heq

end NewsServer
