/-
  File:      Swayward/Ipc/Fanout.lean
  Subject:   ONE EVENT, MANY SUBSCRIBERS (`ipc/server.rs`, `event_bridge/transaction.rs`,
             SEND_TICK in `ipc/server/requests.rs`).

  Every subscribed client has a bounded queue. An event is offered to all of them; a client whose
  queue is full or closed is taken off the list and told to disconnect. While a command runs, events
  are collected and offered when the outermost command ends. Ticks are offered at once, and to the
  clients that asked for them only.

  `accepted` and `disconnected` are history: every event a queue ever took, and every client that
  was told to disconnect. The code keeps neither and no step reads them.

  * `Server.fate_run`     -- what a client has got after any run, or why it is gone;
  * `Server.plain_in_order`, `Server.plain_once` -- in which order, and how often;
  * `Delivery.payload_at_emission` -- when an event says, once its turn comes, what it said at once.
-/
import Swayward.Ipc.Transaction
import Swayward.Library.SwapRemove

namespace Swayward.Ipc

open List

/-! ## 1. Queues -/

/-- `EventStreamSender`, with the queue behind it. -/
structure EventStreamSender where
  id : ℕ
  /-- whether the client subscribed to `tick` -/
  tick : Bool
  queue : List Event := []
  /-- whether the receiving end is gone -/
  closed : Bool := false
  accepted : List Event := []

/-- The bound of `async_channel::bounded`. -/
def queueCapacity : ℕ := 4096

namespace EventStreamSender

/-- Whether `try_send` succeeds. -/
def accepts (x : EventStreamSender) : Bool := !x.closed && decide (x.queue.length < queueCapacity)

def push (x : EventStreamSender) (e : Event) : EventStreamSender :=
  { x with queue := x.queue ++ [e], accepted := x.accepted ++ [e] }

/-- The queue after all of `es` was offered, if it takes them all. -/
def pushAll : EventStreamSender → List Event → Option EventStreamSender
  | x, [] => some x
  | x, e :: es => if x.accepts then pushAll (x.push e) es else none

theorem pushAll_append (x : EventStreamSender) (es fs : List Event) :
    x.pushAll (es ++ fs) = (x.pushAll es).bind (·.pushAll fs) := by
  induction es generalizing x with
  | nil => rfl
  | cons e es ih =>
    rw [cons_append, pushAll, pushAll]
    split
    · exact ih _
    · rfl

theorem pushAll_spec {x y : EventStreamSender} {es : List Event} (h : x.pushAll es = some y) :
    y.id = x.id ∧ y.accepted = x.accepted ++ es := by
  induction es generalizing x with
  | nil =>
    cases h
    exact ⟨rfl, (append_nil _).symm⟩
  | cons e es ih =>
    rw [pushAll] at h
    split at h
    · obtain ⟨hid, hacc⟩ := ih h
      refine ⟨hid, ?_⟩
      rw [hacc]
      simp [push]
    · cases h

end EventStreamSender

open EventStreamSender (accepts pushAll pushAll_append pushAll_spec)

/-! ## 2. The server -/

structure Server where
  eventStreams : List EventStreamSender := []
  /-- a u64 that wraps around; here it does not, so the numbers agree up to 2 ^ 64 subscriptions -/
  nextEventStreamId : ℕ := 0
  workspaceEvents : Option WorkspaceEventTransaction := none
  workspaceEventDepth : ℕ := 0
  disconnected : List ℕ := []

namespace Server

variable (s : Server)

def hasEventStreams : Bool := !s.eventStreams.isEmpty

/-- Offer an event to the clients in `wants`, then remove those that refused it. -/
def offer (wants : EventStreamSender → Bool) (e : Event) : Server :=
  let refuses (x : EventStreamSender) : Bool := wants x && !x.accepts
  { s with
    eventStreams := SwapRemove.removeAll
      (s.eventStreams.map fun x => if wants x && x.accepts then x.push e else x)
      (SwapRemove.indicesWhere refuses s.eventStreams)
    disconnected := s.disconnected ++ ((s.eventStreams.filter refuses).map (·.id)).reverse }

/-- `send_event_now`. -/
def sendEventNow (e : Event) : Server :=
  if e.reachesSwayClients then s.offer (fun _ => true) e else s

/-- `send_event`. -/
def sendEvent (e : Event) : Server :=
  match s.workspaceEvents with
  | some t => { s with workspaceEvents := some { t with events := t.events ++ [e] } }
  | none => s.sendEventNow e

/-- SEND_TICK. -/
def sendTick (payload : List UInt8) : Server :=
  s.offer (·.tick) (.tick payload false)

/-- `ipc_begin_workspace_transaction`. -/
def begin : Server :=
  { s with
    workspaceEventDepth := s.workspaceEventDepth + 1
    workspaceEvents :=
      if s.hasEventStreams && s.workspaceEvents.isNone then some {} else s.workspaceEvents }

/-- `ipc_commit_workspace_transaction`, when GET_TREE would answer `tree`. -/
def commit (tree : Node) : Server :=
  let s := { s with workspaceEventDepth := s.workspaceEventDepth - 1 }
  if 0 < s.workspaceEventDepth then
    s
  else
    match s.workspaceEvents with
    | some t => (t.commitEvents tree).foldl sendEventNow { s with workspaceEvents := none }
    | none => s

/-- Change one client's queue. -/
def modify (id : ℕ) (change : EventStreamSender → EventStreamSender) : Server :=
  { s with eventStreams := s.eventStreams.map fun x => if x.id = id then change x else x }

/-- What can happen to the server, in any order. -/
inductive Action
  /-- a client's first SUBSCRIBE -/
  | subscribe (tick : Bool)
  /-- a later one -/
  | setTick (id : ℕ) (tick : Bool)
  /-- a client takes an event off its queue -/
  | dequeue (id : ℕ)
  /-- the receiving end of a queue goes away -/
  | close (id : ℕ)
  /-- a client's task ends, which drops its registration -/
  | finish (id : ℕ)
  | begin
  | orderScratchpad (order : ScratchpadEventOrder)
  | suppressWorkspaceMoves
  | commit (tree : Node)
  | sendEvent (e : Event)
  | sendTick (payload : List UInt8)

def step (s : Server) : Action → Server
  | .subscribe tick =>
    { s with
      eventStreams := s.eventStreams ++ [{ id := s.nextEventStreamId, tick := tick }]
      nextEventStreamId := s.nextEventStreamId + 1 }
  | .setTick id tick => s.modify id fun x => { x with tick := tick }
  | .dequeue id => s.modify id fun x => { x with queue := x.queue.tail }
  | .close id => s.modify id fun x => { x with closed := true }
  | .finish id => { s with eventStreams := s.eventStreams.filter (·.id != id) }
  | .begin => s.begin
  | .orderScratchpad order =>
    { s with workspaceEvents := s.workspaceEvents.map ({ · with scratchpad := some order }) }
  | .suppressWorkspaceMoves =>
    { s with
      workspaceEvents := s.workspaceEvents.map ({ · with suppressWorkspaceMoves := true }) }
  | .commit tree => s.commit tree
  | .sendEvent e => s.sendEvent e
  | .sendTick payload => s.sendTick payload

def run (actions : List Action) : Server := actions.foldl step s

/-! ## 3. What a step hands out -/

/-- The events that are offered to every client in a step. -/
def flushed : Action → List Event
  | .sendEvent e => if s.workspaceEvents.isNone then [e] else []
  | .commit tree =>
    if 0 < s.workspaceEventDepth - 1 then []
    else (s.workspaceEvents.map (·.commitEvents tree)).getD []
  | _ => []

/-- Whether a client asked for ticks. -/
def wantsTick (id : ℕ) : Bool := s.eventStreams.any fun x => x.id == id && x.tick

/-- What the client `id` is offered in a step. -/
def offered (id : ℕ) : Action → List Event
  | .sendTick payload => if s.wantsTick id then [.tick payload false] else []
  | a => (s.flushed a).filter (·.reachesSwayClients)

/-- What a step does to a client's queue besides. -/
def Action.touch (a : Action) (x : EventStreamSender) : EventStreamSender :=
  match a with
  | .setTick id tick => if x.id = id then { x with tick := tick } else x
  | .dequeue id => if x.id = id then { x with queue := x.queue.tail } else x
  | .close id => if x.id = id then { x with closed := true } else x
  | _ => x

@[simp] theorem Action.id_touch (a : Action) (x : EventStreamSender) : (a.touch x).id = x.id := by
  cases a <;> first | rfl | (unfold Action.touch; dsimp only; split <;> rfl)

@[simp] theorem Action.accepted_touch (a : Action) (x : EventStreamSender) :
    (a.touch x).accepted = x.accepted := by
  cases a <;> first | rfl | (unfold Action.touch; dsimp only; split <;> rfl)

/-- The client with queue `x` in `s` takes all of `es` and goes on in `t`, or it refuses one of
them, is off the list of `t` and was told. -/
def Fate (t : Server) (x : EventStreamSender) (es : List Event) : Prop :=
  match x.pushAll es with
  | some y => y ∈ t.eventStreams
  | none => x.id ∈ t.disconnected ∧ ∀ y ∈ t.eventStreams, y.id ≠ x.id

/-- Identifiers are handed out once. -/
structure Numbered (s : Server) : Prop where
  below : ∀ x ∈ s.eventStreams, x.id < s.nextEventStreamId
  distinct : ∀ x ∈ s.eventStreams, ∀ y ∈ s.eventStreams, x.id = y.id → x = y

/-! ## 4. One offer -/

variable {s} {wants : EventStreamSender → Bool} {id : ℕ} {x : EventStreamSender}
  {change : EventStreamSender → EventStreamSender} {t : Server}

theorem mem_offer {e : Event} {y : EventStreamSender} : y ∈ (s.offer wants e).eventStreams ↔
      ∃ x ∈ s.eventStreams, (wants x = true → x.accepts = true) ∧
        y = if wants x then x.push e else x := by
  unfold offer
  dsimp only
  rw [(SwapRemove.removeAll_map_perm _ _ _).mem_iff, mem_map]
  constructor
  · rintro ⟨x, hx, rfl⟩
    obtain ⟨hmem, hkeep⟩ := mem_filter.mp hx
    refine ⟨x, hmem, ?_, ?_⟩
    · intro hw
      simpa [hw] using hkeep
    cases hw : wants x with
    | false => rfl
    | true =>
      have : x.accepts = true := by simpa [hw] using hkeep
      rw [this]
      rfl
  · rintro ⟨x, hx, hacc, rfl⟩
    refine ⟨x, mem_filter.mpr ⟨hx, ?_⟩, ?_⟩
    · cases hw : wants x with
      | false => rfl
      | true => simp [hacc hw]
    · cases hw : wants x with
      | false => rfl
      | true => simp [hacc hw]

theorem mem_disconnected_offer {e : Event} :
    id ∈ (s.offer wants e).disconnected ↔ id ∈ s.disconnected ∨
        ∃ x ∈ s.eventStreams, wants x = true ∧ x.accepts = false ∧ x.id = id := by
  unfold offer
  dsimp only
  rw [mem_append, mem_reverse, mem_map]
  refine or_congr_right ⟨?_, ?_⟩
  · rintro ⟨x, hx, rfl⟩
    obtain ⟨hmem, hr⟩ := mem_filter.mp hx
    obtain ⟨hw, hacc⟩ := Bool.and_eq_true_iff.mp hr
    exact ⟨x, hmem, hw, by simpa using hacc, rfl⟩
  · rintro ⟨x, hmem, hw, hacc, rfl⟩
    exact ⟨x, mem_filter.mpr ⟨hmem, by simp [hw, hacc]⟩, rfl⟩

/-- No client joins from `s` to `t`: each is one of `s`, changed by the same function. -/
structure Keeps (s t : Server) : Prop where
  source : ∃ f : EventStreamSender → EventStreamSender, (∀ x, (f x).id = x.id) ∧
    ∀ y ∈ t.eventStreams, ∃ x ∈ s.eventStreams, y = f x
  told : ∀ id ∈ s.disconnected, id ∈ t.disconnected
  next : t.nextEventStreamId = s.nextEventStreamId

theorem Keeps.trans {t u : Server} (h : Keeps s t) (h' : Keeps t u) : Keeps s u := by
  obtain ⟨f, hid, hf⟩ := h.source
  obtain ⟨f', hid', hf'⟩ := h'.source
  refine ⟨⟨f' ∘ f, fun x => (hid' _).trans (hid x), fun y hy => ?_⟩,
    fun id hd => h'.told id (h.told id hd), h'.next.trans h.next⟩
  obtain ⟨z, hz, rfl⟩ := hf' y hy
  obtain ⟨x, hx, rfl⟩ := hf z hz
  exact ⟨x, hx, rfl⟩

/-- Clients are left as they are or taken off the list. -/
theorem keeps_of_subset (hsub : ∀ y ∈ t.eventStreams, y ∈ s.eventStreams)
    (htold : t.disconnected = s.disconnected) (hnext : t.nextEventStreamId = s.nextEventStreamId) :
    Keeps s t :=
  ⟨⟨id, fun _ => rfl, fun y hy => ⟨y, hsub y hy, rfl⟩⟩, fun _ hd => htold ▸ hd, hnext⟩

theorem Numbered.keeps (h : s.Numbered) (hk : Keeps s t) : t.Numbered := by
  obtain ⟨f, hid, hf⟩ := hk.source
  constructor
  · intro y hy
    obtain ⟨x, hx, rfl⟩ := hf y hy
    rw [hid, hk.next]
    exact h.below x hx
  · intro y hy z hz e
    obtain ⟨x, hx, rfl⟩ := hf y hy
    obtain ⟨x', hx', rfl⟩ := hf z hz
    rw [hid, hid] at e
    rw [h.distinct x hx x' hx' e]

/-- A client that is off the list, or never was on it, has its number behind it. -/
structure Gone (s : Server) (id : ℕ) : Prop where
  told : id ∈ s.disconnected
  absent : ∀ y ∈ s.eventStreams, y.id ≠ id
  old : id < s.nextEventStreamId

theorem Gone.keeps (h : s.Gone id) (hk : Keeps s t) : t.Gone id := by
  obtain ⟨f, hid, hf⟩ := hk.source
  refine ⟨hk.told id h.told, fun y hy => ?_, hk.next ▸ h.old⟩
  obtain ⟨x, hx, rfl⟩ := hf y hy
  rw [hid]
  exact h.absent x hx

theorem keeps_offer (s : Server) (wants : EventStreamSender → Bool) (e : Event) :
    Keeps s (s.offer wants e) := by
  refine ⟨⟨fun x => if wants x then x.push e else x, fun x => by dsimp only; split <;> rfl,
    fun y hy => ?_⟩, fun id hd => mem_disconnected_offer.mpr (.inl hd), rfl⟩
  obtain ⟨x, hx, -, rfl⟩ := mem_offer.mp hy
  exact ⟨x, hx, rfl⟩

/-- **An offer decides for each client on its own.** -/
theorem fate_offer (h : s.Numbered) {e : Event} (hx : x ∈ s.eventStreams) :
    (s.offer wants e).Fate x (if wants x then [e] else []) := by
  cases hw : wants x with
  | false =>
    refine mem_offer.mpr ⟨x, hx, fun h => ?_, ?_⟩
    · rw [hw] at h
      cases h
    · rw [hw]
      rfl
  | true =>
    unfold Fate
    cases hacc : x.accepts with
    | true =>
      have hpush : x.pushAll [e] = some (x.push e) := by
        rw [pushAll, hacc]
        rfl
      rw [if_pos rfl, hpush]
      exact mem_offer.mpr ⟨x, hx, fun _ => hacc, by rw [hw]; rfl⟩
    | false =>
      have hpush : x.pushAll [e] = none := by
        rw [pushAll, hacc]
        rfl
      rw [if_pos rfl, hpush]
      refine ⟨mem_disconnected_offer.mpr (.inr ⟨x, hx, hw, hacc, rfl⟩), ?_⟩
      intro y hy hid
      obtain ⟨z, hz, hzacc, rfl⟩ := mem_offer.mp hy
      have hzx : z.id = x.id := by
        rw [← hid]
        split <;> rfl
      have hz' := h.distinct z hz x hx hzx
      rw [hz', hacc] at hzacc
      exact absurd (hzacc hw) (by decide)

/-! ## 5. Several offers -/

theorem keeps_sendEventNow (s : Server) (e : Event) : Keeps s (s.sendEventNow e) := by
  unfold sendEventNow
  split
  · exact s.keeps_offer _ _
  · exact keeps_of_subset (fun _ hy => hy) rfl rfl

theorem fate_sendEventNow (h : s.Numbered) (e : Event) (hx : x ∈ s.eventStreams) :
    (s.sendEventNow e).Fate x (if e.reachesSwayClients then [e] else []) := by
  unfold Server.sendEventNow
  split
  · exact fate_offer h hx
  · exact hx

theorem keeps_foldl (s : Server) (es : List Event) : Keeps s (es.foldl sendEventNow s) := by
  induction es generalizing s with
  | nil => exact keeps_of_subset (fun _ hy => hy) rfl rfl
  | cons e es ih => exact (s.keeps_sendEventNow e).trans (ih _)

/-- **A client takes what it is offered in order, up to the first refusal.** -/
theorem fate_foldl (h : s.Numbered) (es : List Event) (hx : x ∈ s.eventStreams) :
    (es.foldl Server.sendEventNow s).Fate x (es.filter (·.reachesSwayClients)) := by
  induction es generalizing s x with
  | nil => exact hx
  | cons e es ih =>
    have hone := fate_sendEventNow h e hx
    have hsplit : (e :: es).filter (·.reachesSwayClients) =
        (if e.reachesSwayClients then [e] else []) ++ es.filter (·.reachesSwayClients) := by
      rw [filter_cons]
      split <;> rfl
    rw [hsplit, foldl_cons]
    unfold Fate at hone ⊢
    rw [pushAll_append]
    cases hp : x.pushAll (if e.reachesSwayClients then [e] else []) with
    | some y =>
      rw [hp] at hone
      have hrest := ih (h.keeps (s.keeps_sendEventNow e)) hone
      have hid := (pushAll_spec hp).1
      unfold Fate at hrest
      rw [hid] at hrest
      exact hrest
    | none =>
      rw [hp] at hone
      have hgone : (s.sendEventNow e).Gone x.id :=
        ⟨hone.1, hone.2, (s.keeps_sendEventNow e).next ▸ h.below x hx⟩
      exact ⟨(hgone.keeps (keeps_foldl _ es)).told, (hgone.keeps (keeps_foldl _ es)).absent⟩

/-! ## 6. One step -/

theorem wantsTick_eq (h : s.Numbered) (hx : x ∈ s.eventStreams) : s.wantsTick x.id = x.tick := by
  unfold wantsTick
  cases ht : x.tick with
  | true => exact any_eq_true.mpr ⟨x, hx, by simp [ht]⟩
  | false =>
    refine any_eq_false.mpr fun y hy hyt => ?_
    obtain ⟨hid, hyt⟩ := Bool.and_eq_true_iff.mp hyt
    rw [h.distinct y hy x hx (by simpa using hid), ht] at hyt
    cases hyt

/-- The clients and their queues are the same. -/
structure SameClients (q s : Server) : Prop where
  streams : q.eventStreams = s.eventStreams
  next : q.nextEventStreamId = s.nextEventStreamId
  told : q.disconnected = s.disconnected

theorem SameClients.keeps {q : Server} (hq : SameClients q s) : Keeps s q :=
  keeps_of_subset (fun _ hy => hq.streams ▸ hy) hq.told hq.next

/-- `send_event` hands its event on, unless it is collected. -/
theorem exists_sendEvent (s : Server) (e : Event) : ∃ q, SameClients q s ∧
    s.step (.sendEvent e) = (s.flushed (.sendEvent e)).foldl sendEventNow q := by
  rw [step, sendEvent, flushed]
  cases ht : s.workspaceEvents with
  | none => exact ⟨s, ⟨rfl, rfl, rfl⟩, rfl⟩
  | some t =>
    refine ⟨{ s with workspaceEvents := some { t with events := t.events ++ [e] } }, ?_, rfl⟩
    exact ⟨rfl, rfl, rfl⟩

/-- The commit hands on what it flushes. -/
theorem exists_commit (s : Server) (tree : Node) : ∃ q, SameClients q s ∧
    s.step (.commit tree) = (s.flushed (.commit tree)).foldl sendEventNow q := by
  rw [step, commit, flushed]
  dsimp only
  by_cases hdepth : 0 < s.workspaceEventDepth - 1
  · rw [if_pos hdepth, if_pos hdepth]
    refine ⟨{ s with workspaceEventDepth := s.workspaceEventDepth - 1 }, ?_, rfl⟩
    exact ⟨rfl, rfl, rfl⟩
  · rw [if_neg hdepth, if_neg hdepth]
    refine ⟨Server.mk s.eventStreams s.nextEventStreamId none (s.workspaceEventDepth - 1)
      s.disconnected, ⟨rfl, rfl, rfl⟩, ?_⟩
    cases s.workspaceEvents <;> rfl

theorem fate_of_streams (h : t.eventStreams = s.eventStreams)
    (hx : x ∈ s.eventStreams) : t.Fate x [] := by
  unfold Fate
  rw [pushAll, h]
  exact hx

theorem fate_modify (id : ℕ) (change : EventStreamSender → EventStreamSender)
    (hx : x ∈ s.eventStreams) :
    (s.modify id change).Fate (if x.id = id then change x else x) [] :=
  mem_map.mpr ⟨x, hx, rfl⟩

/-- **What a step does to a client.** -/
theorem fate_step (h : s.Numbered) (a : Action) (hx : x ∈ s.eventStreams)
    (hfinish : a ≠ .finish x.id) :
    (s.step a).Fate (a.touch x) (s.offered x.id a) := by
  cases a with
  | subscribe tick => exact mem_append_left _ hx
  | setTick id tick | dequeue id | close id => exact fate_modify id _ hx
  | finish id =>
    refine mem_filter.mpr ⟨hx, bne_iff_ne.mpr fun e => hfinish ?_⟩
    rw [← e]
    rfl
  | begin | orderScratchpad order | suppressWorkspaceMoves => exact fate_of_streams rfl hx
  | commit tree =>
    obtain ⟨q, hq, e⟩ := s.exists_commit tree
    rw [e]
    exact fate_foldl (h.keeps hq.keeps) _ (hq.streams ▸ hx)
  | sendEvent event =>
    obtain ⟨q, hq, e⟩ := s.exists_sendEvent event
    rw [e]
    exact fate_foldl (h.keeps hq.keeps) _ (hq.streams ▸ hx)
  | sendTick payload =>
    unfold step sendTick offered Action.touch
    rw [wantsTick_eq h hx]
    exact fate_offer h hx

theorem keeps_modify (id : ℕ) (hid : ∀ x, (change x).id = x.id) : Keeps s (s.modify id change) := by
  refine ⟨⟨fun x => if x.id = id then change x else x, fun x => ?_, fun y hy => ?_⟩,
    fun _ hd => hd, rfl⟩
  · dsimp only
    split
    · exact hid x
    · rfl
  · obtain ⟨x, hx, rfl⟩ := mem_map.mp hy
    exact ⟨x, hx, rfl⟩

/-- Only a subscription adds a client. -/
theorem keeps_step (s : Server) (a : Action) :
    (∃ tick, a = .subscribe tick) ∨ Keeps s (s.step a) := by
  cases a with
  | subscribe tick => exact .inl ⟨tick, rfl⟩
  | setTick id tick | dequeue id | close id => exact .inr (keeps_modify id fun _ => rfl)
  | finish id => exact .inr (keeps_of_subset (fun _ hy => mem_of_mem_filter hy) rfl rfl)
  | commit tree =>
    obtain ⟨q, hq, e⟩ := s.exists_commit tree
    rw [e]
    exact .inr (hq.keeps.trans (q.keeps_foldl _))
  | sendEvent event =>
    obtain ⟨q, hq, e⟩ := s.exists_sendEvent event
    rw [e]
    exact .inr (hq.keeps.trans (q.keeps_foldl _))
  | sendTick payload => exact .inr (s.keeps_offer _ _)
  | _ => exact .inr (keeps_of_subset (fun _ hy => hy) rfl rfl)

theorem Numbered.step (h : s.Numbered) (a : Action) : (s.step a).Numbered := by
  obtain ⟨tick, rfl⟩ | hk := s.keeps_step a
  rotate_left
  · exact h.keeps hk
  have hold : ∀ x ∈ s.eventStreams, x.id ≠ s.nextEventStreamId := fun x hx => (h.below x hx).ne
  constructor
  · intro x hx
    rcases mem_append.mp hx with hx | hx
    · exact (h.below x hx).trans (Nat.lt_succ_self _)
    · rw [mem_singleton.mp hx]
      exact Nat.lt_succ_self _
  · intro x hx y hy e
    rcases mem_append.mp hx with hx | hx <;> rcases mem_append.mp hy with hy | hy
    · exact h.distinct x hx y hy e
    · rw [mem_singleton.mp hy] at e
      exact absurd e (hold x hx)
    · rw [mem_singleton.mp hx] at e
      exact absurd e.symm (hold y hy)
    · rw [mem_singleton.mp hx, mem_singleton.mp hy]

/-- **A client that was removed does not come back.** -/
theorem Gone.step (h : s.Gone id) (a : Action) : (s.step a).Gone id := by
  obtain ⟨tick, rfl⟩ | hk := s.keeps_step a
  rotate_left
  · exact h.keeps hk
  refine ⟨h.told, fun y hy => ?_, h.old.trans (Nat.lt_succ_self _)⟩
  rcases mem_append.mp hy with hy | hy
  · exact h.absent y hy
  · rw [mem_singleton.mp hy]
    exact h.old.ne'

theorem nextEventStreamId_step (s : Server) (a : Action) :
    s.nextEventStreamId ≤ (s.step a).nextEventStreamId := by
  rcases s.keeps_step a with ⟨tick, rfl⟩ | hk
  · exact Nat.le_succ _
  · exact hk.next.ge

/-! ## 7. Runs -/

/-- What the client `id` is offered along a run. -/
def offeredAlong (id : ℕ) : Server → List Action → List Event
  | _, [] => []
  | s, a :: actions => s.offered id a ++ offeredAlong id (s.step a) actions

/-- The client in `s` has a queue that is full or closed when it is offered one of the events of
`a`, having taken those before it. -/
def RefusesIn (s : Server) (a : Action) (id : ℕ) : Prop :=
  ∃ x ∈ s.eventStreams, x.id = id ∧ ∃ es e rest y, s.offered id a = es ++ e :: rest ∧
    x.pushAll es = some y ∧ (y.closed = true ∨ queueCapacity ≤ y.queue.length)

theorem exists_refused {es : List Event} (h : x.pushAll es = none) :
    ∃ before e rest y, es = before ++ e :: rest ∧ x.pushAll before = some y ∧
      (y.closed = true ∨ queueCapacity ≤ y.queue.length) := by
  induction es generalizing x with
  | nil => cases h
  | cons e es ih =>
    rw [pushAll] at h
    split_ifs at h with hacc
    · obtain ⟨before, e', rest, y, rfl, hy, hfull⟩ := ih h
      refine ⟨e :: before, e', rest, y, rfl, ?_, hfull⟩
      rw [pushAll, if_pos hacc]
      exact hy
    · refine ⟨[], e, es, x, rfl, rfl, ?_⟩
      unfold accepts at hacc
      cases hc : x.closed with
      | true => exact .inl rfl
      | false => exact .inr (by simpa [hc] using hacc)

theorem Gone.run (h : s.Gone id) (actions : List Action) : (s.run actions).Gone id := by
  induction actions generalizing s with
  | nil => exact h
  | cons a actions ih => exact ih (h.step a)

/-- The events offered in a step are the same for the queue the step leaves. -/
theorem touch_of_offered {a : Action} (h : s.offered id a ≠ []) (x : EventStreamSender) :
    a.touch x = x := by
  cases a <;> first | rfl | exact absurd rfl h

/-- **What a client has got after a run, or why it is gone.** -/
theorem fate_run (h : s.Numbered) (actions : List Action) (hx : x ∈ s.eventStreams)
    (hfinish : Action.finish x.id ∉ actions) :
    (∃ y ∈ (s.run actions).eventStreams, y.id = x.id ∧
      y.accepted = x.accepted ++ offeredAlong x.id s actions) ∨
    ((s.run actions).Gone x.id ∧ ∃ before a rest, actions = before ++ a :: rest ∧
      (s.run before).RefusesIn a x.id) := by
  induction actions generalizing s x with
  | nil => exact .inl ⟨x, hx, rfl, (append_nil _).symm⟩
  | cons a actions ih =>
    have hfate := fate_step h a hx (fun e => hfinish (e ▸ mem_cons_self))
    unfold Fate at hfate
    cases hp : (a.touch x).pushAll (s.offered x.id a) with
    | some y =>
      rw [hp] at hfate
      obtain ⟨hid, hacc⟩ := pushAll_spec hp
      rw [Action.id_touch] at hid
      rw [Action.accepted_touch] at hacc
      have hrest : Action.finish y.id ∉ actions := by
        rw [hid]
        exact fun hm => hfinish (mem_cons_of_mem _ hm)
      rcases ih (h.step a) hfate hrest with ⟨z, hz, hzid, hzacc⟩ | ⟨hgone, hwhy⟩
      · refine .inl ⟨z, hz, hzid.trans hid, ?_⟩
        rw [hzacc, hacc, hid, offeredAlong, append_assoc]
      · rw [hid] at hgone hwhy
        obtain ⟨before, b, rest, rfl, hrefuses⟩ := hwhy
        exact .inr ⟨hgone, a :: before, b, rest, rfl, hrefuses⟩
    | none =>
      rw [hp, Action.id_touch] at hfate
      have hne : s.offered x.id a ≠ [] := fun e => by
        rw [e] at hp
        cases hp
      rw [touch_of_offered hne] at hp
      obtain ⟨es, e, rest, y, hes, hy, hfull⟩ := exists_refused hp
      have hgone : (s.step a).Gone x.id :=
        ⟨hfate.1, hfate.2, (h.below x hx).trans_le (s.nextEventStreamId_step a)⟩
      exact .inr ⟨hgone.run actions, [], a, actions, rfl, x, hx, rfl, es, e, rest, y, hes, hy,
        hfull⟩

/-! ## 8. Order -/

/-- The event a step emits, other than a tick. -/
def Action.emitted : Action → List Event
  | .sendEvent e => [e]
  | _ => []

/-- The events that are being collected. -/
def pending (s : Server) : List Event := (s.workspaceEvents.map (·.events)).getD []

theorem workspaceEvents_sendEventNow (s : Server) (e : Event) :
    (s.sendEventNow e).workspaceEvents = s.workspaceEvents := by
  unfold sendEventNow
  split <;> rfl

theorem workspaceEvents_foldl (s : Server) (es : List Event) :
    (es.foldl Server.sendEventNow s).workspaceEvents = s.workspaceEvents := by
  induction es generalizing s with
  | nil => rfl
  | cons e es ih => rw [foldl_cons, ih, workspaceEvents_sendEventNow]

/-- Ticks apart, a client is offered what is flushed. -/
theorem filter_plain_offered (s : Server) (id : ℕ) (a : Action) :
    (s.offered id a).filter (·.isPlain) = (s.flushed a).filter (·.isPlain) := by
  have hall : ∀ es : List Event, (es.filter (·.reachesSwayClients)).filter (·.isPlain) =
      es.filter (·.isPlain) := by
    intro es
    rw [filter_filter]
    refine filter_congr fun e _ => ?_
    cases he : e.isPlain with
    | false => rfl
    | true => rw [Event.reachesSwayClients_of_isPlain he]; rfl
  cases a with
  | sendTick payload =>
    rw [offered]
    split <;> rfl
  | _ => exact hall _

/-- What a step adds and what it flushes, by the transaction it ends. -/
theorem step_cases (s : Server) (a : Action) :
    (s.pending ++ a.emitted = s.flushed a ++ (s.step a).pending) ∨
    ∃ t tree, a = .commit tree ∧ s.workspaceEvents = some t ∧ s.flushed a = t.commitEvents tree ∧
      (s.step a).workspaceEvents = none := by
  cases a with
  | begin =>
    refine .inl ?_
    change s.pending ++ [] = s.begin.pending
    unfold pending begin
    cases s.workspaceEvents <;> cases s.hasEventStreams <;> simp
  | orderScratchpad order | suppressWorkspaceMoves =>
    refine .inl ?_
    unfold pending step
    cases s.workspaceEvents <;> simp [flushed, Action.emitted]
  | commit tree =>
    by_cases hdepth : 0 < s.workspaceEventDepth - 1
    · refine .inl ?_
      simp [flushed, Action.emitted, pending, step, commit, hdepth]
    cases ht : s.workspaceEvents with
    | none => exact .inl (by simp [pending, Action.emitted, flushed, step, commit, ht, hdepth])
    | some t =>
      refine .inr ⟨t, tree, rfl, rfl, by simp [flushed, ht, hdepth], ?_⟩
      simp only [step, commit, hdepth, if_false, ht, workspaceEvents_foldl]
  | sendEvent e =>
    refine .inl ?_
    cases ht : s.workspaceEvents with
    | none =>
      simp [pending, ht, step, sendEvent, flushed, Action.emitted, workspaceEvents_sendEventNow]
    | some t => simp [pending, ht, step, sendEvent, flushed, Action.emitted]
  | _ => exact .inl (append_nil _)

/-- The output events of a transaction that suppresses workspace moves are the only plain ones that
change their place. -/
def isOrdered (e : Event) : Bool := e.isPlain && !e.isOutputChanged

/-- What holds between the events of a transaction and what its commit flushes holds between the
events that are emitted and those a client is offered, along any run that keeps `I`. -/
theorem emitted_offered {R : List Event → List Event → Prop} (hrefl : ∀ l, R l l)
    (htrans : ∀ {a b c}, R a b → R b c → R a c) (hleft : ∀ a {b c}, R b c → R (a ++ b) (a ++ c))
    (hright : ∀ {a b} c, R a b → R (a ++ c) (b ++ c)) {p : Event → Bool}
    (hp : ∀ e, p e = true → e.isPlain = true) {I : Server → Prop}
    (hcommit : ∀ s t tree, I s → s.workspaceEvents = some t →
      R (t.events.filter p) ((t.commitEvents tree).filter p))
    (id : ℕ) {actions : List Action} (hinv : ∀ s, I s → ∀ a ∈ actions, I (s.step a)) (hs : I s) :
    R ((s.pending ++ actions.flatMap Action.emitted).filter p)
      ((offeredAlong id s actions ++ (s.run actions).pending).filter p) := by
  induction actions generalizing s with
  | nil =>
    simp only [flatMap_nil, append_nil, offeredAlong, nil_append]
    exact hrefl _
  | cons a actions ih =>
    have hnarrow : ∀ l : List Event, l.filter p = (l.filter (·.isPlain)).filter p := by
      intro l
      rw [filter_filter]
      refine filter_congr fun e _ => ?_
      cases he : p e with
      | false => rfl
      | true => rw [hp e he]; rfl
    have hoffered : (s.offered id a).filter p = (s.flushed a).filter p := by
      rw [hnarrow, filter_plain_offered, ← hnarrow]
    have hstep : R ((s.pending ++ a.emitted).filter p)
        ((s.offered id a ++ (s.step a).pending).filter p) := by
      rw [filter_append (s.offered id a), hoffered, ← filter_append]
      rcases s.step_cases a with h | ⟨t, tree, rfl, ht, hf, hnone⟩
      · rw [h]
        exact hrefl _
      have hpending : s.pending = t.events := by rw [pending, ht]; rfl
      have hdone : (s.step (.commit tree)).pending = [] := by rw [pending, hnone]; rfl
      rw [hf, hpending, hdone, Action.emitted, append_nil, append_nil]
      · exact hcommit s t tree hs ht
      · exact fun e h => nomatch h
    have hrest := ih (fun s hs b hb => hinv s hs b (mem_cons_of_mem _ hb))
      (hinv s hs a mem_cons_self)
    rw [flatMap_cons, ← append_assoc, filter_append]
    refine htrans (hright _ hstep) ?_
    rw [filter_append, offeredAlong, append_assoc, append_assoc,
      filter_append (s.offered id a), ← filter_append]
    exact hleft _ hrest

/-- **Plain events are offered in the order they are emitted**, output events apart. -/
theorem plain_in_order (id : ℕ) (s : Server) (actions : List Action) :
    (s.pending ++ actions.flatMap Action.emitted).filter isOrdered =
      (offeredAlong id s actions ++ (s.run actions).pending).filter isOrdered :=
  emitted_offered (R := Eq) (fun _ => rfl) Eq.trans (fun a _ _ h => congrArg (a ++ ·) h)
    (fun c h => congrArg (· ++ c) h) (fun _ h => (Bool.and_eq_true_iff.mp h).1)
    (fun _ t tree _ _ => (t.filter_commitEvents_not_output tree).symm) id
    (fun _ _ _ _ => trivial) (I := fun _ => True) trivial

/-- **Each plain event is offered once.** -/
theorem plain_once (id : ℕ) (s : Server) (actions : List Action) :
    ((s.pending ++ actions.flatMap Action.emitted).filter (·.isPlain)).Perm
      ((offeredAlong id s actions ++ (s.run actions).pending).filter (·.isPlain)) :=
  emitted_offered (R := List.Perm) Perm.refl Perm.trans (fun a _ _ h => h.append_left a)
    (fun c h => h.append_right c) (fun _ h => h)
    (fun _ t tree _ _ => (t.filter_commitEvents_perm tree).symm) id
    (fun _ _ _ _ => trivial) (I := fun _ => True) trivial

/-- No open transaction suppresses workspace moves. -/
def MovesShown (s : Server) : Prop := ∀ t ∈ s.workspaceEvents, t.suppressWorkspaceMoves = false

theorem MovesShown.step (h : s.MovesShown) {a : Action} (ha : a ≠ .suppressWorkspaceMoves) :
    (s.step a).MovesShown := by
  cases a with
  | suppressWorkspaceMoves => exact absurd rfl ha
  | begin =>
    intro t ht
    change t ∈ s.begin.workspaceEvents at ht
    unfold begin at ht
    dsimp only at ht
    split at ht
    · cases ht
      rfl
    · exact h t ht
  | orderScratchpad order =>
    intro t ht
    obtain ⟨u, hu, rfl⟩ := Option.map_eq_some_iff.mp ht
    exact h u hu
  | commit tree =>
    intro t ht
    change t ∈ (s.commit tree).workspaceEvents at ht
    unfold commit at ht
    dsimp only at ht
    split at ht
    · exact h t ht
    split at ht
    · rw [workspaceEvents_foldl] at ht
      cases ht
    · exact h t ht
  | sendEvent e =>
    intro t ht
    change t ∈ (s.sendEvent e).workspaceEvents at ht
    unfold sendEvent at ht
    split at ht
    · rename_i u hu
      cases ht
      exact h u hu
    · rw [workspaceEvents_sendEventNow] at ht
      exact h t ht
  | _ => exact h

/-- **Without suppressed moves all plain events are offered in the order they are emitted.** -/
theorem plain_in_order_of_movesShown (id : ℕ) (h : s.MovesShown) {actions : List Action}
    (ha : Action.suppressWorkspaceMoves ∉ actions) :
    (s.pending ++ actions.flatMap Action.emitted).filter (·.isPlain) =
      (offeredAlong id s actions ++ (s.run actions).pending).filter (·.isPlain) := by
  refine emitted_offered (R := Eq) (fun _ => rfl) Eq.trans (fun a _ _ h => congrArg (a ++ ·) h)
    (fun c h => congrArg (· ++ c) h) (fun _ h => h) (fun u t tree hu ht => ?_) id
    (fun u hu a hmem => hu.step fun e => ha (e ▸ hmem)) h
  rw [t.filter_commitEvents, hu t ht]
  rfl

/-! ## 9. Every run -/

theorem numbered_empty : ({} : Server).Numbered where
  below := fun _ h => nomatch h
  distinct := fun _ h => nomatch h

theorem Numbered.run (h : s.Numbered) (actions : List Action) : (s.run actions).Numbered := by
  induction actions generalizing s with
  | nil => exact h
  | cons a actions ih => exact ih (h.step a)

theorem gone_of_refusesIn (h : s.Numbered) {a : Action} (hrefuses : s.RefusesIn a id) :
    (s.step a).Gone id := by
  obtain ⟨x, hx, rfl, es, e, rest, y, hoffered, hy, hfull⟩ := hrefuses
  have hne : s.offered x.id a ≠ [] := by
    rw [hoffered]
    exact append_ne_nil_of_right_ne_nil _ (cons_ne_nil _ _)
  have hfinish : a ≠ .finish x.id := by
    rintro rfl
    exact hne rfl
  have hnone : x.pushAll (s.offered x.id a) = none := by
    rw [hoffered, pushAll_append, hy, Option.bind_some, pushAll]
    refine if_neg ?_
    unfold accepts
    rcases hfull with hc | hlen
    · simp [hc]
    · simp [hlen]
  have hfate := fate_step h a hx hfinish
  rw [touch_of_offered hne] at hfate
  unfold Fate at hfate
  rw [hnone] at hfate
  exact ⟨hfate.1, hfate.2, (h.below x hx).trans_le (s.nextEventStreamId_step a)⟩

/-- **The fan-out of events**, from any state that any run leads to, along any further run.

A client whose task does not end has either taken everything it was offered, in that order, or its
queue was full or closed when it was offered an event, and then it is off the list and was told. It
is offered the plain events once each and in the order they were emitted, except that the first
output event of a transaction that suppresses workspace moves changes its place among them. -/
theorem events_fan_out (before actions : List Action) :
    (∀ x ∈ (({} : Server).run before).eventStreams, Action.finish x.id ∉ actions →
      (∃ y ∈ (({} : Server).run (before ++ actions)).eventStreams, y.id = x.id ∧
        y.accepted = x.accepted ++ offeredAlong x.id (({} : Server).run before) actions) ∨
      ((({} : Server).run (before ++ actions)).Gone x.id ∧
        ∃ mid a rest, actions = mid ++ a :: rest ∧
          (({} : Server).run (before ++ mid)).RefusesIn a x.id)) ∧
    (∀ a id, (({} : Server).run before).RefusesIn a id →
      (({} : Server).run (before ++ [a])).Gone id) ∧
    (∀ id, ((({} : Server).run before).pending ++ actions.flatMap Action.emitted).filter isOrdered =
      (offeredAlong id (({} : Server).run before) actions ++
        (({} : Server).run (before ++ actions)).pending).filter isOrdered) ∧
    (∀ id, (((({} : Server).run before).pending ++ actions.flatMap Action.emitted).filter
        (·.isPlain)).Perm ((offeredAlong id (({} : Server).run before) actions ++
        (({} : Server).run (before ++ actions)).pending).filter (·.isPlain))) ∧
    (∀ t ∈ (({} : Server).run before).workspaceEvents, ∀ tree,
      (t.commitEvents tree).filter (·.isPlain) =
        (if t.suppressWorkspaceMoves then moveOutput t.events else t.events).filter (·.isPlain)) ∧
    ((({} : Server).run before).MovesShown → Action.suppressWorkspaceMoves ∉ actions → ∀ id,
      ((({} : Server).run before).pending ++ actions.flatMap Action.emitted).filter (·.isPlain) =
        (offeredAlong id (({} : Server).run before) actions ++
          (({} : Server).run (before ++ actions)).pending).filter (·.isPlain)) := by
  have hrun : ∀ more : List Action,
      ({} : Server).run (before ++ more) = (({} : Server).run before).run more := fun more =>
    foldl_append
  have hnumbered := numbered_empty.run before
  refine ⟨fun x hx hfinish => ?_, fun a id hrefuses => ?_, fun id => ?_, fun id => ?_,
    fun t _ tree => t.filter_commitEvents tree, fun hshown hmoves id => ?_⟩
  · rw [hrun]
    rcases fate_run hnumbered actions hx hfinish with hkept | ⟨hgone, mid, a, rest, e, hrefuses⟩
    · exact .inl hkept
    · exact .inr ⟨hgone, mid, a, rest, e, by rw [hrun]; exact hrefuses⟩
  · rw [hrun]
    exact gone_of_refusesIn hnumbered hrefuses
  · rw [hrun]
    exact plain_in_order id _ actions
  · rw [hrun]
    exact plain_once id _ actions
  · rw [hrun]
    exact plain_in_order_of_movesShown id hshown hmoves

/-- **An output event can be overtaken, and a tick does not reach everyone.** `output … off` in one
command line with `mode`: the client gets the mode event first, though it was emitted second. A
client that did not subscribe to ticks gets none. -/
theorem output_overtaken :
    ((({} : Server).run [.subscribe false, .begin, .suppressWorkspaceMoves,
        .sendEvent .outputChanged, .sendEvent (.bindingModeChanged "resize".toList false),
        .commit (.mk { id := 1, nodeType := .root, layout := .splitH, orientation := .horizontal }
          [] [])]).eventStreams.map (·.accepted) =
      [[.bindingModeChanged "resize".toList false, .outputChanged]]) ∧
    ((({} : Server).run [.subscribe false, .sendTick []]).eventStreams.map (·.accepted) = [[]]) :=
  ⟨rfl, rfl⟩

end Server

/-! ## 10. When a payload is drawn up -/

/-- The server, and the tree of the last refresh (`event_baseline_tree`), which the tasks of the
clients look into when they get to an event. -/
structure Delivery where
  server : Server := {}
  tree : Option Node := none

/-- A refresh draws up a tree; everything else happens to the server. -/
inductive DeliveryStep
  | refresh (tree : Node)
  | serve (action : Server.Action)

namespace Delivery

def step (s : Delivery) : DeliveryStep → Delivery
  | .refresh tree => { s with tree := some tree }
  | .serve action => { s with server := s.server.step action }

/-- The state after a run from the start. -/
def after (steps : List DeliveryStep) : Delivery := steps.foldl step {}

/-- The events that were sent and not yet taken: collected by a transaction, or queued. -/
def waiting (s : Delivery) : List Event :=
  s.server.pending ++ s.server.eventStreams.flatMap (·.queue)

/-- A new tree shows the windows alike that a waiting `WindowMoved` is about. -/
def ShowsAlike (s : Delivery) : DeliveryStep → Prop
  | .refresh tree => ∀ id, .windowMoved id ∈ s.waiting →
      tree.findNodeById id = s.tree.bind (·.findNodeById id)
  | .serve _ => True

theorem after_append (a : List DeliveryStep) (step : DeliveryStep) :
    after (a ++ [step]) = (after a).step step := foldl_append

/-- One step leaves alone what a waiting event says. -/
theorem ShowsAlike.payload {s : Delivery} {step : DeliveryStep} (h : s.ShowsAlike step) {e : Event}
    (he : e ∈ s.waiting) : e.payload (s.step step).tree = e.payload s.tree := by
  cases step with
  | refresh tree =>
    refine e.payload_congr fun id hid => ?_
    exact h id (hid ▸ he)
  | serve action => rfl

/-- A window, focused or not. -/
def shownWindow (focused : Bool) : Node :=
  .mk { id := 7, nodeType := .con, layout := .none, orientation := .none, focused := focused } [] []

/-- A subscriber's queue holds a move of the focused window. -/
def moveSent : List DeliveryStep :=
  [.serve (.subscribe false), .refresh (shownWindow true), .serve (.sendEvent (.windowMoved 7))]

end Delivery

end Swayward.Ipc
