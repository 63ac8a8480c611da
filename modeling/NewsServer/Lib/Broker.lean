import NewsServer.Lib.Runs

/-!
# Store and forward

A member of a broker subscribes to topics, and may ask that what is published on a topic while it
is offline be kept for it. Its box is delivered when it comes online, and stays in the box. A broker
keeps its members apart: to each of them a run is what the run does to it, and what is published
(`Run.eq_acts`).

What is delivered was published on a topic the member had subscribed to (`exists_publish`). While it
stays online it is delivered exactly that, in order (`got_of_settled`). What is in its box is
delivered every time it comes online (`count_got`).
-/

namespace Broker

/-- What is done to a member. -/
inductive Act (T P : Type*)
  | login
  | logout
  | subscribe (topic : T) (keep : Bool)
  | unsubscribe (topic : T)
  | publish (topic : T) (packet : P)
  deriving DecidableEq

/-- A member: `flag` tells, for a topic it has subscribed to, whether it asked that packets be
kept. -/
@[ext] structure Member (T P : Type*) where
  online : Bool
  flag : T → Option Bool
  box : List P
  got : List P

namespace Member

variable {T P : Type*}

def new : Member T P where
  online := false
  flag := fun _ => none
  box := []
  got := []

/-- The member comes online, and its box is delivered. -/
def login (m : Member T P) : Member T P :=
  if m.online then m else { m with online := true, got := m.got ++ m.box }

/-- A packet is published on `topic`. -/
def publish (m : Member T P) (topic : T) (packet : P) : Member T P :=
  match m.flag topic with
  | none => m
  | some keep =>
    if m.online then { m with got := m.got ++ [packet] }
    else if keep then { m with box := m.box ++ [packet] }
    else m

variable {m : Member T P} {topic : T} {packet : P}

theorem login_of_online (h : m.online = true) : m.login = m :=
  if_pos h

theorem login_of_offline (h : m.online = false) :
    m.login = { m with online := true, got := m.got ++ m.box } := by
  simp [login, h]

@[simp] theorem login_online (m : Member T P) : m.login.online = true := by
  unfold login
  split_ifs with h
  · exact h
  · rfl

@[simp] theorem login_flag (m : Member T P) : m.login.flag = m.flag := by
  unfold login
  split_ifs <;> rfl

@[simp] theorem publish_online (m : Member T P) (topic : T) (packet : P) :
    (m.publish topic packet).online = m.online := by
  unfold publish
  split
  · rfl
  · split_ifs <;> rfl

@[simp] theorem publish_flag (m : Member T P) (topic : T) (packet : P) :
    (m.publish topic packet).flag = m.flag := by
  unfold publish
  split
  · rfl
  · split_ifs <;> rfl

/-- What is published is delivered to a member that is online, if it has subscribed. -/
theorem publish_got (m : Member T P) (topic : T) (packet : P) : (m.publish topic packet).got =
    m.got ++ if m.online ∧ (m.flag topic).isSome then [packet] else [] := by
  unfold publish
  rcases hf : m.flag topic with _ | keep
  · simp
  · dsimp only
    split_ifs <;> simp_all

/-- It is kept for one that is offline, if it has asked for that. -/
theorem publish_box (m : Member T P) (topic : T) (packet : P) : (m.publish topic packet).box =
    m.box ++ if m.online = false ∧ m.flag topic = some true then [packet] else [] := by
  unfold publish
  rcases hf : m.flag topic with _ | keep
  · simp
  · dsimp only
    split_ifs <;> simp_all

/-- What an act delivers. -/
def delivers (m : Member T P) : Act T P → List P
  | .login => if m.online then [] else m.box
  | .publish topic packet => if m.online ∧ (m.flag topic).isSome then [packet] else []
  | _ => []

/-- What an act puts in the box. -/
def keeps (m : Member T P) : Act T P → List P
  | .publish topic packet =>
    if m.online = false ∧ m.flag topic = some true then [packet] else []
  | _ => []

variable [DecidableEq T]

def act (m : Member T P) : Act T P → Member T P
  | .login => m.login
  | .logout => { m with online := false }
  | .subscribe topic keep => { m with flag := Function.update m.flag topic (some keep) }
  | .unsubscribe topic => { m with flag := Function.update m.flag topic none }
  | .publish topic packet => m.publish topic packet

def acts (m : Member T P) (as : List (Act T P)) : Member T P :=
  as.foldl act m

@[simp] theorem acts_nil (m : Member T P) : m.acts [] = m := rfl

@[simp] theorem acts_cons (m : Member T P) (a : Act T P) (as : List (Act T P)) :
    m.acts (a :: as) = (m.act a).acts as := rfl

theorem acts_append (m : Member T P) (as bs : List (Act T P)) :
    m.acts (as ++ bs) = (m.acts as).acts bs :=
  List.foldl_append

theorem acts_concat (m : Member T P) (as : List (Act T P)) (a : Act T P) :
    m.acts (as ++ [a]) = (m.acts as).act a :=
  acts_append m as [a]

/-- How often an act makes the member come online. -/
def comes (m : Member T P) : Act T P → ℕ
  | .login => if m.online then 0 else 1
  | _ => 0

/-- What is published on a topic the member has subscribed to. -/
def hears (m : Member T P) : Act T P → List P
  | .publish topic packet => if (m.flag topic).isSome then [packet] else []
  | _ => []

theorem act_got (m : Member T P) (a : Act T P) : (m.act a).got = m.got ++ m.delivers a := by
  cases a with
  | login =>
    rcases ho : m.online with _ | _
    · simp [act, delivers, login_of_offline ho, ho]
    · simp [act, delivers, login_of_online ho, ho]
  | publish topic packet => exact publish_got m topic packet
  | logout => simp [act, delivers]
  | subscribe => simp [act, delivers]
  | unsubscribe => simp [act, delivers]

theorem act_box (m : Member T P) (a : Act T P) : (m.act a).box = m.box ++ m.keeps a := by
  cases a with
  | login =>
    rcases ho : m.online with _ | _
    · simp [act, keeps, login_of_offline ho]
    · simp [act, keeps, login_of_online ho]
  | publish topic packet => exact publish_box m topic packet
  | logout => simp [act, keeps]
  | subscribe => simp [act, keeps]
  | unsubscribe => simp [act, keeps]

/-! ## Many acts -/

/-- What is in the box was there at the start, or was published while the member was offline, on a
topic that it wanted packets of to be kept. -/
theorem exists_publish_of_box {p : P} : ∀ {as : List (Act T P)} {m : Member T P},
    p ∈ (m.acts as).box → p ∈ m.box ∨ ∃ pre topic post, as = pre ++ .publish topic p :: post ∧
      (m.acts pre).flag topic = some true ∧ (m.acts pre).online = false
  | [], _, h => .inl h
  | a :: as, m, h => by
    rcases exists_publish_of_box (m := m.act a) h with hb | ⟨pre, topic, post, rfl, hf, ho⟩
    · rw [act_box, List.mem_append] at hb
      refine hb.imp_right fun hk => ?_
      cases a with
      | publish topic packet =>
        simp only [keeps] at hk
        split_ifs at hk with hc
        · obtain rfl := List.mem_singleton.1 hk
          exact ⟨[], topic, as, rfl, hc.2, hc.1⟩
        · simp at hk
      | _ => simp [keeps] at hk
    · exact .inr ⟨a :: pre, topic, post, rfl, hf, ho⟩

/-- What a new member was delivered was published on a topic it had subscribed to: while it was
online, or while it was offline and to be kept, and then it came online after that. -/
theorem exists_publish : ∀ {as : List (Act T P)} {p : P}, p ∈ ((new : Member T P).acts as).got →
    ∃ pre topic post, as = pre ++ .publish topic p :: post ∧
      (((new : Member T P).acts pre).online = true ∧
          (((new : Member T P).acts pre).flag topic).isSome ∨
        ((new : Member T P).acts pre).online = false ∧
          ((new : Member T P).acts pre).flag topic = some true ∧
          ∃ mid rest, post = mid ++ .login :: rest ∧
            ((new : Member T P).acts (pre ++ .publish topic p :: mid)).online = false) := by
  intro as
  induction as using List.reverseRecOn with
  | nil => exact fun h => by simp [new] at h
  | append_singleton as a ih =>
    intro p h
    rw [acts_concat, act_got, List.mem_append] at h
    rcases h with h | h
    · obtain ⟨pre, topic, post, rfl, hc⟩ := ih h
      refine ⟨pre, topic, post ++ [a], by simp, hc.imp_right ?_⟩
      rintro ⟨ho, hf, mid, rest, rfl, hoff⟩
      exact ⟨ho, hf, mid, rest ++ [a], by simp, hoff⟩
    · cases a with
      | publish topic packet =>
        simp only [delivers] at h
        split_ifs at h with hc
        · obtain rfl := List.mem_singleton.1 h
          exact ⟨as, topic, [], rfl, .inl hc⟩
        · simp at h
      | login =>
        simp only [delivers] at h
        split_ifs at h with ho
        · simp at h
        · rcases exists_publish_of_box h with hb | ⟨pre, topic, post, rfl, hf, hoff⟩
          · simp [new] at hb
          · exact ⟨pre, topic, post ++ [.login], by simp, .inr ⟨hoff, hf, post, [], rfl,
              Bool.not_eq_true _ ▸ ho⟩⟩
      | _ => simp [delivers] at h

/-- The packets that are published on a topic the member has subscribed to, in order. -/
def heard : Member T P → List (Act T P) → List P
  | _, [] => []
  | m, a :: as => m.hears a ++ heard (m.act a) as

/-- A member that stays online is delivered all of them, once each, and nothing else. -/
theorem got_of_settled : ∀ {as : List (Act T P)} {m : Member T P}, m.online = true →
    .logout ∉ as → (m.acts as).got = m.got ++ m.heard as ∧ (m.acts as).box = m.box
  | [], m, _, _ => by simp [heard]
  | a :: as, m, ho, has => by
    obtain ⟨ha, has⟩ := not_or.1 (List.mem_cons.not.1 has)
    have ho' : (m.act a).online = true := by
      cases a with
      | login => exact m.login_online
      | logout => exact absurd rfl ha
      | publish topic packet => exact (m.publish_online topic packet).trans ho
      | subscribe => exact ho
      | unsubscribe => exact ho
    have hnews : m.delivers a = m.hears a ∧ m.keeps a = [] := by
      cases a <;> simp [delivers, hears, keeps, ho]
    obtain ⟨hgot, hbox⟩ := got_of_settled ho' has
    rw [acts_cons, hgot, hbox, act_got, act_box, hnews.1, hnews.2, List.append_assoc,
      List.append_nil]
    exact ⟨rfl, rfl⟩

/-- How often the member comes online. -/
def logins : Member T P → List (Act T P) → ℕ
  | _, [] => 0
  | m, a :: as => m.comes a + logins (m.act a) as

/-- A packet that is not published again is delivered as often as the member comes online, for each
time it is in the box. -/
theorem count_got [DecidableEq P] {p : P} : ∀ {as : List (Act T P)} {m : Member T P},
    (∀ topic, .publish topic p ∉ as) →
      (m.acts as).got.count p = m.got.count p + m.logins as * m.box.count p
  | [], m, _ => by simp [logins]
  | a :: as, m, has => by
    have ha : ∀ topic, a ≠ .publish topic p := fun topic h =>
      has topic (h ▸ List.mem_cons_self)
    have ih := count_got (m := m.act a) fun topic h => has topic (List.mem_cons_of_mem _ h)
    have hact : (m.delivers a).count p = m.comes a * m.box.count p ∧ (m.keeps a).count p = 0 := by
      cases a with
      | login => rcases ho : m.online with _ | _ <;> simp [delivers, keeps, comes, ho]
      | publish topic packet =>
        have hne : packet ≠ p := fun h => ha topic (h ▸ rfl)
        simp only [delivers, keeps, comes]
        split_ifs <;> simp [hne]
      | _ => simp [delivers, keeps, comes]
    rw [acts_cons, ih, act_got, act_box, List.count_append, List.count_append, hact.1, hact.2,
      logins]
    ring

theorem heard_append : ∀ (as bs : List (Act T P)) (m : Member T P),
    m.heard (as ++ bs) = m.heard as ++ (m.acts as).heard bs
  | [], _, _ => rfl
  | a :: as, bs, m => by
    rw [List.cons_append, heard, heard, heard_append as, List.append_assoc]
    rfl

theorem logins_append : ∀ (as bs : List (Act T P)) (m : Member T P),
    m.logins (as ++ bs) = m.logins as + (m.acts as).logins bs
  | [], _, _ => (Nat.zero_add _).symm
  | a :: as, bs, m => by
    rw [List.cons_append, logins, logins, logins_append as, Nat.add_assoc]
    rfl

end Member

/-! ## Machines that are brokers -/

/-- A machine keeps its members apart, if a step is to each of them one act at most: then a run
makes of each what the acts in it do. -/
theorem Run.eq_acts {σ ι T P : Type*} [DecidableEq T] {f : σ → ι → Option σ} {s₀ : σ}
    {I : σ → Prop} (member : σ → Member T P) (act : σ → ι → Option (Act T P)) (hI : I s₀)
    (hIstep : ∀ s i s', I s → f s i = some s' → I s')
    (hstep : ∀ s i s', I s → f s i = some s' →
      member s' = (member s).acts (act s i).toList) {tr : List (σ × ι)} {s : σ}
    (h : Runs.Run f s₀ tr s) :
    member s = (member s₀).acts (tr.filterMap fun q => act q.1 q.2) := by
  induction h with
  | start => rfl
  | @step tr s s' i hr hs ih =>
    have hIs : I s := hr.always hI hIstep
    rw [hstep s i s' hIs hs, ih, List.filterMap_append, Member.acts_append, List.filterMap_cons,
      List.filterMap_nil]
    rcases act s i with _ | a <;> rfl

end Broker
