import IconBridge.Near.BMC.Delivery

/-!
# The state of a link after a relay message

The record of the link is copied before the messages are handled, and the copy
is written back after them. Handlers write the record in between, so what they
say of the reachable addresses is lost, while the connections that they write stay.
-/

namespace IconBridge.Near.BMC

open Lib List

variable {B : Type} {c : Config B} {s s' : St B} {source : BTPAddress}

/-- The events of the receipts that are not below the height reached so far -/
def kept (height : ℕ) : List (Receipt B) → List (Event B)
  | [] => []
  | r :: rs => if r.height < height then kept height rs else r.events ++ kept r.height rs

def forCenter (c : Config B) (events : List (Event B)) : List (BtpMessage B) :=
  (events.filter (·.next = c.btpAddress)).map (·.message)

/-- The Init, Link and Unlink messages that are handled, in order -/
def told (c : Config B) (height : ℕ) (receipts : List (Receipt B)) : List BmcServiceType :=
  ((forCenter c (kept height receipts)).filter (·.isService c)).filterMap (·.tells c)

theorem acceptEvents_ok {events : List (Event B)} (h : events.foldlM (acceptEvent c) x = .ok y) :
    y = (x.1 ++ forCenter c events, { x.2 with rxSeq := x.2.rxSeq + events.length }) := by
  induction events generalizing x with
  | nil =>
    cases h
    simp [forCenter]
  | cons e events ih =>
    simp only [foldlM_cons, acceptEvent, bind_ok, mapError_ok, BTS.add_ok, pure_ok] at h
    obtain ⟨_, ⟨_, -, _, ⟨-, rfl⟩, rfl⟩, h⟩ := h
    rw [ih h]
    by_cases he : e.next = c.btpAddress <;> simp [he, forCenter, add_assoc, add_comm]

theorem getBtpMessages_ok (h : receipts.foldlM (acceptReceipt c) x = .ok y) :
    y.1 = x.1 ++ forCenter c (kept x.2.rxHeight receipts) ∧ y.2.reachable = x.2.reachable ∧
      y.2.rxSeq = x.2.rxSeq + (kept x.2.rxHeight receipts).length := by
  induction receipts generalizing x with
  | nil =>
    cases h
    simp [kept, forCenter]
  | cons r receipts ih =>
    simp only [foldlM_cons, acceptReceipt, bind_ok] at h
    obtain ⟨z, hz, h⟩ := h
    split at hz
    · next hlow =>
      cases hz
      simpa [kept, hlow] using ih h
    · next hlow =>
      obtain rfl := acceptEvents_ok hz
      simpa [kept, hlow, forCenter, add_assoc] using ih h

def St.view (s : St B) (source : BTPAddress) : View :=
  ⟨((s.links source).map (·.reachable)).getD [], s.marked source⟩

theorem Handles.view (h : Handles c s source m s') :
    s'.view source = (m.tells c).toList.foldl View.hear (s.view source) := by
  cases h with
  | told t _ ht h =>
    obtain ⟨property, _, hlink, ⟨_, rfl, -⟩, rfl, hmarked⟩ := h
    have hview : s.view source = ⟨property.reachable, s.marked source⟩ := by simp [St.view, hlink]
    rw [ht, hview]
    exact congrArg₂ View.mk (by simp [St.setLink]) hmarked
  | promised ps _ ht _ h =>
    subst h
    cases htells : m.tells c with
    | none => rfl
    | some t => exact (ht t htells (s.view source)).symm
  | refused reply next _ ht _ h =>
    rw [h, ht]
    rfl

theorem handleServiceMessages_view {messages : List (BtpMessage B)}
    (h : messages.foldlM (fun s m => handleServiceMessage c s source m) s = .ok s') :
    s'.view source = (messages.filterMap (·.tells c)).foldl View.hear (s.view source) := by
  induction messages generalizing s with
  | nil =>
    cases h
    rfl
  | cons m messages ih =>
    simp only [foldlM_cons, bind_ok] at h
    obtain ⟨t, ht, h⟩ := h
    rw [ih h, (handleServiceMessage_handles ht).view]
    cases htells : m.tells c <;> simp [htells]

theorem handleRelayMessage_ok (hlink : s.links source = some link)
    (h : handleRelayMessage c s caller source receipts = .ok s') :
    ∃ link', s'.links source = some link' ∧ link'.reachable = link.reachable ∧
      link'.rxSeq = link.rxSeq + (kept link.rxHeight receipts).length ∧
      s'.marked source = ((told c link.rxHeight receipts).foldl View.hear (s.view source)).marked := by
  simp only [handleRelayMessage, processBmcMessages, handleBtpMessages, bind_ok, pure_ok] at h
  obtain ⟨_, -, _, -, link₀, hlink₀, ⟨messages, link₁⟩, hread, _, ⟨_, -, _, -, t, ⟨u, hu, ht⟩, rfl⟩, rfl⟩ := h
  obtain rfl : link = link₀ := Option.some.inj (hlink.symm.trans (BTS.unwrap_ok.1 hlink₀))
  obtain ⟨hmessages, hreachable, hseq⟩ := getBtpMessages_ok hread
  dsimp only at hmessages hreachable hseq
  have hstatus : ∀ n, ((s.setRelayStatus source link₁ caller n).2.reachable = link₁.reachable ∧
      (s.setRelayStatus source link₁ caller n).2.rxSeq = link₁.rxSeq) ∧
      (s.setRelayStatus source link₁ caller n).1.view source = s.view source := by
    intro n
    unfold St.setRelayStatus
    split <;> exact ⟨⟨rfl, rfl⟩, rfl⟩
  have hrouted : t.marked source = u.marked source := by
    refine foldlM_ok (P := fun t => t.marked source = u.marked source) (fun _ _ _ _ h hsend => ?_) rfl ht
    obtain ⟨_, _, rfl⟩ := sendMessage_promise hsend
    exact h
  refine ⟨_, Function.update_self .., (hstatus _).1.1.trans hreachable, (hstatus _).1.2.trans hseq, ?_⟩
  have hheard := congrArg View.marked (handleServiceMessages_view hu)
  rw [(hstatus _).2, hmessages] at hheard
  exact hrouted.trans hheard

/-- The reachable addresses are those the messages say, every event is counted, and the networks
that are routed over the link are those of its reachable addresses. -/
def Recorded (c : Config B) (source : BTPAddress) (receipts : List (Receipt B)) (link : Link)
    (s' : St B) : Prop :=
  ∃ link', s'.links source = some link' ∧
    (∀ a, a ∈ link'.reachable ↔
      a ∈ (told c link.rxHeight receipts).foldl BmcServiceType.applied link.reachable) ∧
    link'.rxSeq = link.rxSeq + (receipts.flatMap (·.events)).length ∧
    ∀ network, network ∈ s'.marked source ↔ ∃ a ∈ link'.reachable, a.networkAddress = .ok network

theorem link_recorded_iff (c : Config B) (s s' : St B) (caller : String) (source : BTPAddress)
    (receipts : List (Receipt B)) (link : Link) (hlink : s.links source = some link)
    (h : handleRelayMessage c s caller source receipts = .ok s') :
    Recorded c source receipts link s' ↔
      (∀ a, a ∈ link.reachable ↔
        a ∈ (told c link.rxHeight receipts).foldl BmcServiceType.applied link.reachable) ∧
      (kept link.rxHeight receipts).length = (receipts.flatMap (·.events)).length ∧
      ∀ network, network ∈ ((told c link.rxHeight receipts).foldl View.hear (s.view source)).marked ↔
        ∃ a ∈ link.reachable, a.networkAddress = .ok network := by
  obtain ⟨link', hlink', hreachable, hseq, hmarked⟩ := handleRelayMessage_ok hlink h
  simp only [Recorded, hlink', Option.some.injEq, exists_eq_left', hreachable, hseq, hmarked,
    Nat.add_left_cancel_iff]

def eventFrom (sequence : ℕ) (m : BmcServiceType) : Event Note :=
  { iconInit with
    sequence
    message := { iconInit.message with payload := .service m } }

def plainLink : Link := { relays := ["relay.near"] }

def plainlyLinked : St Note :=
  { initialState center with
    linkKeys := [iconLink]
    links := Function.update (fun _ => none) iconLink (some plainLink) }

def bscLink : BTPAddress := ⟨"btp://0x61.bsc/0x2"⟩

/-- BSC is linked to ICON and unlinked again. -/
def brieflyLinked : List (Receipt Note) :=
  [{ events := [eventFrom 1 (.link bscLink), eventFrom 2 (.unlink bscLink)], height := 1 }]

theorem brieflyLinked_recorded :
    ∃ s', handleRelayMessage center plainlyLinked "relay.near" iconLink brieflyLinked = .ok s' ∧
      Recorded center iconLink brieflyLinked plainLink s' := by
  obtain ⟨s', h⟩ := toBool_ok.1
    (show (handleRelayMessage center plainlyLinked "relay.near" iconLink brieflyLinked).toBool = true by
      decide +kernel)
  have htold : told center 0 brieflyLinked = [.link bscLink, .unlink bscLink] := by decide +kernel
  refine ⟨s', h, (link_recorded_iff center plainlyLinked s' "relay.near" iconLink brieflyLinked plainLink
    (by decide +kernel) h).2 ⟨?_, by decide +kernel, ?_⟩⟩
  · simp [plainLink, htold, BmcServiceType.applied]
  · simp [plainLink, htold, View.hear, BmcServiceType.applied, St.view, St.marked, plainlyLinked, initialState]

/-- ICON lists the addresses it can reach, and none is recorded. -/
theorem init_not_recorded :
    ∃ s', handleRelayMessage center plainlyLinked "relay.near" iconLink
        [{ events := [iconInit], height := 1 }] = .ok s' ∧
      ¬ Recorded center iconLink [{ events := [iconInit], height := 1 }] plainLink s' := by
  obtain ⟨s', h⟩ := toBool_ok.1 (show (handleRelayMessage center plainlyLinked "relay.near" iconLink
    [{ events := [iconInit], height := 1 }]).toBool = true by decide +kernel)
  refine ⟨s', h, ?_⟩
  rintro ⟨link', hlink', hreachable, -⟩
  obtain ⟨_, hlink, hkept, -⟩ := handleRelayMessage_ok (show _ = some plainLink by decide +kernel) h
  cases hlink'.symm.trans hlink
  have hmem := (hreachable bscLink).2 (by decide +kernel)
  rw [hkept] at hmem
  cases hmem

end IconBridge.Near.BMC
