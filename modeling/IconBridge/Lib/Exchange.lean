import Mathlib.Algebra.Order.Group.Multiset

/-!
# Requests and answers between two parties

Two parties send each other numbered requests over two channels and answer the
requests they get. Each numbers its own requests, so the same number names two
requests. A party that answers requests only, and each at most once, leaves no
doubt about an answer: it says what became of the request with its number.
-/

namespace IconBridge.Lib

open List

variable {K : Type*}

inductive Note (K : Type*)
  | ask (k : K)
  | reply (k : K) (ok : Bool)
  | other
  deriving DecidableEq

def Note.ask? : Note K → Option K
  | .ask k => some k
  | _ => none

def Note.reply? : Note K → Option (K × Bool)
  | .reply k ok => some (k, ok)
  | _ => none

def Note.number? : Note K → Option K
  | .ask k | .reply k _ => some k
  | .other => none

def asks (l : List (Note K)) : Multiset K := l.filterMap Note.ask?

def replies (l : List (Note K)) : Multiset (K × Bool) := l.filterMap Note.reply?

@[simp] theorem asks_nil : asks ([] : List (Note K)) = 0 := rfl
@[simp] theorem replies_nil : replies ([] : List (Note K)) = 0 := rfl

@[simp] theorem asks_ask {l : List (Note K)} : asks (.ask k :: l) = k ::ₘ asks l := rfl
@[simp] theorem asks_reply {l : List (Note K)} : asks (.reply k ok :: l) = asks l := rfl
@[simp] theorem asks_other {l : List (Note K)} : asks (.other :: l) = asks l := rfl
@[simp] theorem replies_ask {l : List (Note K)} : replies (.ask k :: l) = replies l := rfl
@[simp] theorem replies_reply {l : List (Note K)} :
    replies (.reply k ok :: l) = (k, ok) ::ₘ replies l := rfl
@[simp] theorem replies_other {l : List (Note K)} : replies (.other :: l) = replies l := rfl

@[simp] theorem asks_append {l l' : List (Note K)} : asks (l ++ l') = asks l + asks l' := by
  simp [asks]

@[simp] theorem replies_append {l l' : List (Note K)} :
    replies (l ++ l') = replies l + replies l' := by
  simp [replies]

@[simp] theorem asks_map_ask {l : List K} : asks (l.map Note.ask) = l := by
  simp [asks, filterMap_map, Function.comp_def, Note.ask?]

@[simp] theorem replies_map_ask {l : List K} : replies (l.map Note.ask) = 0 := by
  simp [replies, filterMap_map, Function.comp_def, Note.reply?]

/-- What a party remembers: the last number it gave out, the requests of the other
party it has carried out, and how its own have ended. -/
structure Party (K : Type*) where
  serial : K
  executed : List K
  ended : List (K × Bool)

/-- What becomes of a message, and what is answered to it. -/
inductive Deals (v v' : Party K) : Option (Note K) → Multiset (K × Bool) → Prop
  | idle (hm : m = none ∨ m = some .other) (hexec : v'.executed = v.executed)
      (hended : v'.ended = v.ended) : Deals v v' m 0
  | absorb (k : K) (hexec : v'.executed = v.executed) (hended : v'.ended = v.ended) :
      Deals v v' (some (.ask k)) 0
  | refuse (k : K) (hexec : v'.executed = v.executed) (hended : v'.ended = v.ended) :
      Deals v v' (some (.ask k)) {(k, false)}
  | accept (k : K) (hexec : v'.executed = v.executed ++ [k]) (hended : v'.ended = v.ended) :
      Deals v v' (some (.ask k)) {(k, true)}
  | settle (k : K) (ok : Bool) (hexec : v'.executed = v.executed)
      (hended : v'.ended = v.ended ++ [(k, ok)]) : Deals v v' (some (.reply k ok)) 0
  | ignore (k : K) (ok : Bool) (hexec : v'.executed = v.executed) (hended : v'.ended = v.ended) :
      Deals v v' (some (.reply k ok)) 0

section
variable [PartialOrder K]

/-- A party takes a message, or acts of its own, and sends others. New requests
get new numbers. -/
structure Turn (v v' : Party K) (m : Option (Note K)) (out : List (Note K)) : Prop where
  serial : v.serial ≤ v'.serial
  nodup : (asks out).Nodup
  fresh : ∀ k ∈ asks out, v.serial < k ∧ k ≤ v'.serial
  deals : Deals v v' m (replies out)

/-- The state of the requests of one party to the other. `served` is what the
other one has made of those it got. -/
structure Exchange (asker server : Party K) (toServer toAsker : List (Note K))
    (served : Multiset (K × Bool)) : Prop where
  nodup : (asks toServer + served.map Prod.fst).Nodup
  bounded : ∀ k ∈ asks toServer + served.map Prod.fst, k ≤ asker.serial
  accounted : replies toAsker + (asker.ended : Multiset (K × Bool)) ≤ served
  executed : ∀ k, k ∈ server.executed ↔ (k, true) ∈ served

variable {v v' w : Party K} {m : Option (Note K)} {out rest toServer toAsker : List (Note K)}
  {served : Multiset (K × Bool)}

theorem Exchange.served_unique (h : Exchange v w toServer toAsker served)
    (h1 : (k, a) ∈ served) (h2 : (k, b) ∈ served) : a = b := by
  have hinj := Multiset.inj_on_of_nodup_map (Multiset.nodup_add.1 h.nodup).2.1
  exact congrArg Prod.snd (hinj _ h1 _ h2 rfl)

/-- How a request has ended says whether it was carried out. -/
theorem Exchange.ended (h : Exchange v w toServer toAsker served) (hk : (k, ok) ∈ v.ended) :
    ok = true ↔ k ∈ w.executed := by
  have hserved : (k, ok) ∈ served :=
    Multiset.mem_of_le h.accounted (Multiset.mem_add.2 (.inr hk))
  rw [h.executed]
  refine ⟨fun hok => hok ▸ hserved, fun hexec => h.served_unique hserved hexec⟩

theorem Exchange.ask_turn (h : Exchange v w toServer (m.toList ++ rest) served)
    (ht : Turn v v' m out) : Exchange v' w (toServer ++ out) rest served where
  nodup := by
    rw [asks_append, add_right_comm, Multiset.nodup_add]
    refine ⟨h.nodup, ht.nodup, Multiset.disjoint_left.2 fun {k} hk hout => ?_⟩
    exact (h.bounded k hk).not_gt (ht.fresh k hout).1
  bounded k hk := by
    rw [asks_append, add_right_comm, Multiset.mem_add] at hk
    rcases hk with hk | hk
    · exact (h.bounded k hk).trans ht.serial
    · exact (ht.fresh k hk).2
  accounted := by
    have hacc := h.accounted
    have hdeals := ht.deals
    generalize replies out = answers at hdeals
    cases hdeals with
    | idle hm _ hended =>
      rw [hended]
      rcases hm with rfl | rfl <;> exact hacc
    | absorb _ _ hended => rw [hended]; exact hacc
    | refuse _ _ hended => rw [hended]; exact hacc
    | accept _ _ hended => rw [hended]; exact hacc
    | settle k ok _ hended =>
      rw [hended, ← Multiset.coe_add, ← add_assoc, add_right_comm, add_comm (replies rest)]
      exact hacc
    | ignore k ok _ hended =>
      rw [hended]
      exact (Multiset.le_cons_self _ _).trans hacc
  executed := h.executed

theorem Exchange.serve (ok : Bool) (h : Exchange w v (.ask k :: rest) toAsker served)
    (hexec : ∀ n, n ∈ v'.executed ↔ (n, true) = (k, ok) ∨ n ∈ v.executed)
    (hout : replies out ≤ {(k, ok)}) :
    Exchange w v' rest (toAsker ++ out) ((k, ok) ::ₘ served) where
  nodup := by
    rw [Multiset.map_cons, Multiset.add_cons, ← Multiset.cons_add]
    exact h.nodup
  bounded n hn := by
    rw [Multiset.map_cons, Multiset.add_cons, ← Multiset.cons_add] at hn
    exact h.bounded n hn
  accounted := by
    rw [replies_append, add_right_comm, ← Multiset.singleton_add, add_comm]
    exact add_le_add hout h.accounted
  executed n := by rw [hexec, Multiset.mem_cons, h.executed]

theorem Exchange.serve_turn (h : Exchange w v (m.toList ++ rest) toAsker served)
    (ht : Turn v v' m out) : ∃ served', Exchange w v' rest (toAsker ++ out) served' := by
  -- what is no request leaves this side of the exchange alone
  have hkeep (hexec : v'.executed = v.executed) (hm : asks (m.toList ++ rest) = asks rest)
      (hout : replies out = 0) : Exchange w v' rest (toAsker ++ out) served := by
    refine ⟨hm ▸ h.nodup, hm ▸ h.bounded, ?_, hexec ▸ h.executed⟩
    rw [replies_append, hout, add_zero]
    exact h.accounted
  have hdeals := ht.deals
  generalize hanswers : replies out = answers at hdeals
  cases hdeals with
  | idle hm hexec _ =>
    refine ⟨served, hkeep hexec ?_ hanswers⟩
    rcases hm with rfl | rfl <;> rfl
  | absorb k hexec _ =>
    exact ⟨_, h.serve false (by simp [hexec]) (by simp [hanswers])⟩
  | refuse k hexec _ =>
    exact ⟨_, h.serve false (by simp [hexec]) hanswers.le⟩
  | accept k hexec _ =>
    exact ⟨_, h.serve true (by simp [hexec, or_comm]) hanswers.le⟩
  | settle k ok hexec _ => exact ⟨served, hkeep hexec rfl hanswers⟩
  | ignore k ok hexec _ => exact ⟨served, hkeep hexec rfl hanswers⟩

structure Conversation (v w : Party K) (toW toV : List (Note K)) : Prop where
  left : ∃ served, Exchange v w toW toV served
  right : ∃ served, Exchange w v toV toW served

theorem Conversation.symm {toV toW : List (Note K)} (h : Conversation v w toW toV) :
    Conversation w v toV toW := ⟨h.right, h.left⟩

theorem Conversation.turn {toW : List (Note K)} (h : Conversation v w toW (m.toList ++ rest))
    (ht : Turn v v' m out) : Conversation v' w (toW ++ out) rest := by
  obtain ⟨⟨served, hasks⟩, ⟨served', hserves⟩⟩ := h
  exact ⟨⟨served, hasks.ask_turn ht⟩, hserves.serve_turn ht⟩

theorem Conversation.ended {toV toW : List (Note K)} (h : Conversation v w toW toV)
    (hk : (k, ok) ∈ v.ended) : ok = true ↔ k ∈ w.executed := by
  obtain ⟨⟨served, hasks⟩, -⟩ := h
  exact hasks.ended hk

/-- The numbers of the requests of a party that are on their way, those of the answers that
are, and those of the requests that have ended -/
def underway (toServer toAsker : List (Note K)) (ended : List (K × Bool)) : Multiset K :=
  asks toServer + (replies toAsker + (ended : Multiset (K × Bool))).map Prod.fst

theorem Conversation.underway {toV toW : List (Note K)} (h : Conversation v w toW toV) :
    (underway toW toV v.ended).Nodup ∧ ∀ k ∈ underway toW toV v.ended, k ≤ v.serial := by
  obtain ⟨⟨served, hasks⟩, -⟩ := h
  have hle : Lib.underway toW toV v.ended ≤ asks toW + served.map Prod.fst :=
    add_le_add_right (Multiset.map_le_map hasks.accounted) _
  exact ⟨Multiset.nodup_of_le hle hasks.nodup, fun k hk => hasks.bounded k (Multiset.mem_of_le hle hk)⟩

/-- The numbers on their way to a party are numbers that were given out: by the
other party, with a request, or by itself, with an answer. -/
theorem Conversation.ask_le {toV toW : List (Note K)} (h : Conversation v w toW toV)
    (hk : .ask k ∈ toV) : k ≤ w.serial := by
  obtain ⟨-, ⟨served, hserves⟩⟩ := h
  refine hserves.bounded _ (Multiset.mem_add.2 (.inl ?_))
  exact mem_filterMap.2 ⟨_, hk, rfl⟩

theorem Conversation.reply_le {toV toW : List (Note K)} (h : Conversation v w toW toV)
    (hk : .reply k ok ∈ toV) : k ≤ v.serial := by
  obtain ⟨⟨served, hasks⟩, -⟩ := h
  have hreply : (k, ok) ∈ replies toV := mem_filterMap.2 ⟨_, hk, rfl⟩
  have hserved := Multiset.mem_of_le hasks.accounted (Multiset.mem_add.2 (.inl hreply))
  exact hasks.bounded _ (Multiset.mem_add.2 (.inr (Multiset.mem_map_of_mem Prod.fst hserved)))

theorem Conversation.number_le {toV toW : List (Note K)} {n : Note K}
    (h : Conversation v w toW toV) (hn : n ∈ toV) (hk : n.number? = some k) :
    k ≤ v.serial ∨ k ≤ w.serial := by
  cases n with
  | ask j =>
    obtain rfl := Option.some.inj hk
    exact .inr (h.ask_le hn)
  | reply j ok =>
    obtain rfl := Option.some.inj hk
    exact .inl (h.reply_le hn)
  | other => contradiction

end

end IconBridge.Lib
