/-
  File:      Swayward/Ipc/Framing.lean
  Subject:   WHAT A CLIENT OF THE IPC SOCKET SEES, over every run of its connection.

  Safety first: however the client's bytes are cut into reads and the server's into writes, and
  whichever ready input is taken, the log of messages is what the socket carries, the requests in
  what was read are answered in order, and events keep the order of the queue. Then progress: what
  is sent is read, answered and written as soon as the inputs for it are taken. A connection at
  which no such input changes anything is `Quiet`, and every chain of inputs that do change it is
  finite.

  * `Sound.step`          -- what every action keeps;
  * `works_wellFounded`   -- reading, answering, writing and delivering come to an end;
  * `Sound.quiet`         -- what is done when they have;
  * `connection_framing`  -- the bytes on the socket, the order of replies and events, and when the
                             connection closes, for every run.
-/
import Swayward.Ipc.Connection

namespace Swayward.Ipc

variable {rawType len : UInt32} {filled : List UInt8}

open List Message

/-! ## 1. Where a stream can be cut -/

/-- The requests that are answered. -/
def Connection.answered (c : Connection) : List Request := c.log.filterMap request?

/-- What a step puts on its way to the server. -/
def StreamInput.sent : StreamInput → List UInt8
  | .send bytes => bytes
  | _ => []

/-- The inputs that are the server's own work. -/
def StreamInput.isWork : StreamInput → Bool
  | .read _ | .answer _ | .write _ | .event _ => true
  | _ => false

/-- How far the task is from waiting for the next header. -/
def Stage.rank : Stage → ℕ
  | .answering _ => 2
  | .writing => 1
  | _ => 0

theorem Stage.rank_le (stage : Stage) : stage.rank ≤ 2 := by
  cases stage
  all_goals exact Nat.le_of_ble_eq_true rfl

/-- What a stream can end in when it is read no further: no whole request, and nothing behind a
header that is refused. -/
structure Cut (tail : List UInt8) : Prop where
  stops : Stops tail
  last : ∀ buf more, buf.length = headerSize → refused buf = true → tail = buf ++ more → more = []

/-- No header that is refused stands first. -/
def Clean (tail : List UInt8) : Prop :=
  ∀ buf more, buf.length = headerSize → refused buf = true → tail ≠ buf ++ more

theorem clean_of_length_lt {tail : List UInt8} (h : tail.length < headerSize) : Clean tail := by
  rintro buf more hbuf - rfl
  rw [length_append] at h
  omega

theorem Cut.of_length_lt {tail : List UInt8} (h : tail.length < headerSize) : Cut tail where
  stops := stops_of_length_lt h
  last buf more hbuf hrefused he := absurd he (clean_of_length_lt h buf more hbuf hrefused)

theorem clean_of_short
    (fits : len.toNat ≤ maxPayloadSize) : Clean (header rawType len ++ filled) := by
  intro buf more hbuf hrefused he
  have hheader := congrArg (take headerSize) he
  rw [take_header_append, ← hbuf, take_left] at hheader
  rw [← hheader, refused_header_iff] at hrefused
  omega

theorem Cut.of_short
    (fits : len.toNat ≤ maxPayloadSize) (short : filled.length < len.toNat) :
    Cut (header rawType len ++ filled) where
  stops := stops_of_short short
  last buf more hbuf hrefused he := absurd he (clean_of_short fits buf more hbuf hrefused)

theorem Cut.of_refused {buf : List UInt8} (hlen : buf.length = headerSize)
    (h : refused buf = true) : Cut buf where
  stops := by
    have hstops : Stops (buf ++ []) := stops_of_refused hlen h
    rwa [append_nil] at hstops
  last := by
    rintro buf' more hbuf' - rfl
    rw [length_append] at hlen
    exact eq_nil_of_length_eq_zero (by omega)

/-! ## 2. What every step keeps -/

/-- What has been read, cut into the requests that are answered and the rest, at each stage. -/
def Stage.Read (answered : List Request) (received : List UInt8) : Stage → Prop
  | .header filled _ => received = frames answered ++ filled
  | .payload rawType len filled _ _ =>
    received = frames answered ++ (Ipc.header rawType len ++ filled)
  | .answering r => received = frames (answered ++ [r])
  | .writing => received = frames answered
  | .closed =>
    (∃ tail, Cut tail ∧ received = frames answered ++ tail) ∨
      ∃ r, received = frames (answered ++ [r])

namespace Stage

variable {answered : List Request} {received : List UInt8} {stage : Stage}

theorem Read.close (h : stage.Read answered received) : Stage.closed.Read answered received := by
  cases stage with
  | header filled short => exact .inl ⟨filled, .of_length_lt short, h⟩
  | payload rawType len filled fits short => exact .inl ⟨_, .of_short fits short, h⟩
  | answering r => exact .inr ⟨r, h⟩
  | writing => exact .inl ⟨[], .of_length_lt (by decide), h.trans (append_nil _).symm⟩
  | closed => exact h

theorem read_afterPayload
    {fits : len.toNat ≤ maxPayloadSize} {hle : filled.length ≤ len.toNat}
    (h : received = frames answered ++ (Ipc.header rawType len ++ filled)) :
    (afterPayload rawType len filled fits hle).Read answered received := by
  unfold afterPayload
  split
  · exact h
  rename_i hlong
  have hlen : UInt32.ofNat filled.length = len := by
    apply UInt32.toNat_inj.mp
    rw [UInt32.toNat_ofNat', Nat.mod_eq_of_lt]
    · omega
    · have hlt : len.toNat < 2 ^ 32 := len.toNat_lt
      omega
  change received = frames (answered ++ [_])
  rw [frames_append, frames_singleton, Request.frame_eq, hlen, h]

theorem read_afterHeader {buf : List UInt8} (hbuf : buf.length ≤ headerSize)
    (h : received = frames answered ++ buf) : (afterHeader buf).Read answered received := by
  unfold afterHeader
  split
  · exact h
  rename_i hlong
  have hlen : buf.length = headerSize := by omega
  have hclosed : refused buf = true → closed.Read answered received := fun hrefused =>
    .inl ⟨buf, .of_refused hlen hrefused, h⟩
  split
  · rename_i hsentinel
    exact hclosed (by simp [refused, hsentinel])
  split
  · rename_i hnone
    exact hclosed (by simp [refused, hnone])
  rename_i rawType len hsome
  split_ifs with hbig
  · refine read_afterPayload ?_
    rw [h, header_of_decodeHeaderRaw hsome, append_nil]
  · exact hclosed (by simpa [refused, hsome] using .inr (by omega))

theorem refused_of_afterHeader {buf : List UInt8} (h : (afterHeader buf).isClosed = true) :
    headerSize ≤ buf.length ∧ refused buf = true := by
  unfold afterHeader at h
  split at h
  · cases h
  rename_i hlong
  refine ⟨by omega, ?_⟩
  split at h
  · rename_i hsentinel
    simp [refused, hsentinel]
  split at h
  · rename_i hnone
    simp [refused, hnone]
  rename_i rawType len hsome
  split at h
  · unfold afterPayload at h
    split at h <;> cases h
  · simpa [refused, hsome] using .inr (by omega)

end Stage

/-- A SUBSCRIBE was accepted: nothing but replies before it is answered, and what comes after is
small enough for its length to be announced. -/
def Greeted (log : List Message) : Prop :=
  ∃ before r after, log = before ++ reply r successReply :: after ∧
    (∀ m ∈ before, m.isReply = true) ∧ MessageType.tryFrom r.rawType = some .subscribe ∧
    ∀ m ∈ after, m.bytes.length < maxWriteBufferSize

theorem Greeted.append {log more : List Message} (h : Greeted log)
    (hmore : ∀ m ∈ more, m.bytes.length < maxWriteBufferSize) : Greeted (log ++ more) := by
  obtain ⟨before, r, after, rfl, hreplies, hsubscribe, hshort⟩ := h
  refine ⟨before, r, after ++ more, by simp, hreplies, hsubscribe, fun m hm => ?_⟩
  rcases mem_append.mp hm with hm | hm
  · exact hshort m hm
  · exact hmore m hm

namespace Connection

/-- **The invariant of a connection.** -/
structure Sound (c : Connection) : Prop where
  framed : c.socket ++ c.writeBuffer = c.log.flatMap bytes
  read : c.stage.Read c.answered c.received
  /-- an event is lost only with the connection -/
  events : ∃ lost, c.log.filterMap event? ++ lost ++ c.queue = c.enqueued ∧
    (c.stage.isClosed = false → lost = [])
  size : ∃ k ≤ 14, c.writeBufferSize = 128 * 2 ^ k
  before : c.subscriptions = none → c.enqueued = [] ∧ ∀ m ∈ c.log, m.isReply = true
  flushed : c.subscriptions = none →
    c.stage = .writing ∨ c.stage = .closed ∨ c.writeBuffer = []
  greeted : c.subscriptions.isSome = true → Greeted c.log

theorem sound_empty : ({} : Connection).Sound where
  framed := rfl
  read := rfl
  events := ⟨[], rfl, fun _ => rfl⟩
  size := ⟨0, by decide, rfl⟩
  before := fun _ => ⟨rfl, fun _ h => nomatch h⟩
  flushed := fun _ => .inr (.inr rfl)
  greeted := fun h => nomatch h

theorem Sound.close {c : Connection} (h : c.Sound) : c.close.Sound := { h with
  read := h.read.close
  events := by
    obtain ⟨lost, hlost, -⟩ := h.events
    exact ⟨lost, hlost, fun hopen => nomatch hopen⟩
  flushed := fun _ => .inr (.inl rfl) }

/-- What `queueAll` does: some of the messages are taken, all of them unless the connection closes
on it, for want of room. -/
theorem queueAll_spec (messages : List Message) {c : Connection}
    (hsize : ∃ k ≤ 14, c.writeBufferSize = 128 * 2 ^ k) :
    ∃ taken size stage, taken <+: messages ∧ c.queueAll messages = { c with
          writeBuffer := c.writeBuffer ++ taken.flatMap bytes
          writeBufferSize := size
          log := c.log ++ taken
          stage := stage } ∧
      (stage = c.stage ∧ taken = messages ∨
        stage = .closed ∧ 2097152 ≤ (c.writeBuffer ++ messages.flatMap bytes).length) ∧
      (∀ m ∈ taken, m.bytes.length < maxWriteBufferSize) ∧ ∃ k ≤ 14, size = 128 * 2 ^ k := by
  induction messages generalizing c with
  | nil =>
    refine ⟨[], c.writeBufferSize, c.stage, nil_prefix, ?_, .inl ⟨rfl, rfl⟩,
      (fun _ h => nomatch h), hsize⟩
    rw [queueAll, flatMap_nil, append_nil, append_nil]
  | cons m messages ih =>
    obtain ⟨k, hk, hk'⟩ := hsize
    rw [queueAll, hk']
    rcases queueIpcMessage_cases c.writeBuffer m.bytes hk with ⟨hreach, hnone⟩ | ⟨j, hj, hlt, hsome⟩
    · refine ⟨[], c.writeBufferSize, .closed, nil_prefix, ?_, .inr ⟨rfl, ?_⟩,
        (fun _ h => nomatch h), k, hk, hk'⟩
      · rw [hnone, flatMap_nil, append_nil, append_nil, hk']
      · rw [flatMap_cons, length_append, length_append]
        omega
    obtain ⟨taken, size, stage, hbegin, he, hstage, htaken, hsize⟩ := ih
      (c := { c with writeBuffer := _, writeBufferSize := _, log := c.log ++ [m] }) ⟨j, hj, rfl⟩
    refine ⟨m :: taken, size, stage, cons_prefix_cons.mpr ⟨rfl, hbegin⟩, ?_, ?_, ?_, hsize⟩
    · rw [hsome]
      dsimp only
      rw [he]
      simp
    · refine hstage.imp (fun ⟨hs, ht⟩ => ⟨hs, ht ▸ rfl⟩) (And.imp_right fun hlong => ?_)
      rwa [flatMap_cons, ← append_assoc]
    intro x hx
    rcases mem_cons.mp hx with rfl | hx
    · have h14 : 2 ^ j ≤ 2 ^ 14 := Nat.pow_le_pow_right (by decide) hj
      unfold maxWriteBufferSize
      omega
    · exact htaken x hx

section Steps

variable (fromSlice : List UInt8 → Option (List Text))
variable {c : Connection}

/-- A request is answered by one reply, and an accepted SUBSCRIBE to ticks by a first tick too. -/
theorem answers_spec (r : Request) (dispatched : List UInt8) :
    (∃ payload, answers fromSlice r dispatched = ([.reply r payload], none)) ∨
    ∃ requested ticks, answers fromSlice r dispatched =
        (.reply r successReply :: ticks, some requested) ∧
      MessageType.tryFrom r.rawType = some .subscribe ∧ (ticks = [] ∨ ticks = [.firstTick]) := by
  unfold answers
  split_ifs with hsubscribe
  · split
    · exact .inl ⟨_, rfl⟩
    refine .inr ⟨_, _, rfl, hsubscribe, ?_⟩
    split
    · exact .inr rfl
    · exact .inl rfl
  · exact .inl ⟨_, rfl⟩

theorem exists_answers (r : Request) (dispatched : List UInt8) :
    ∃ payload ticks, (answers fromSlice r dispatched).1 = .reply r payload :: ticks ∧
      ticks.filterMap request? = [] ∧ ticks.filterMap event? = [] := by
  rcases answers_spec fromSlice r dispatched with ⟨payload, h⟩ | ⟨requested, ticks, h, -, hticks⟩
  · exact ⟨payload, [], by rw [h], rfl, rfl⟩
  · refine ⟨successReply, ticks, by rw [h], ?_⟩
    rcases hticks with rfl | rfl <;> exact ⟨rfl, rfl⟩

section

variable (h : c.Sound)
include h

/-- Reading moves the cut and nothing else. -/
theorem Sound.consume (hopen : c.stage.isClosed = false) (hwriting : c.stage ≠ .writing)
    {got : List UInt8} {stage : Stage} (hread : stage.Read c.answered (c.received ++ got)) :
    Sound { c.consume got with stage := stage } := { h with
  read := hread
  events := by
    obtain ⟨lost, hlost, hnone⟩ := h.events
    exact ⟨lost, hlost, fun _ => hnone hopen⟩
  flushed := by
    intro hnone
    rcases h.flushed hnone with hw | hc | hb
    · exact absurd hw hwriting
    · rw [hc] at hopen
      cases hopen
    · exact .inr (.inr hb) }

theorem Sound.read_step (n : ℕ) : (c.read n).Sound := by
  have hread := h.read
  unfold Connection.read
  split
  · rename_i filled short hstage
    rw [hstage] at hread
    refine h.consume (by rw [hstage]; rfl) (by rw [hstage]; exact nofun) ?_
    refine Stage.read_afterHeader ?_ ?_
    · rw [length_append, length_take]
      omega
    · rw [show c.received = _ from hread, append_assoc]
  · rename_i rawType len filled fits short hstage
    rw [hstage] at hread
    refine h.consume (by rw [hstage]; rfl) (by rw [hstage]; exact nofun) ?_
    apply Stage.read_afterPayload
    rw [show c.received = _ from hread, append_assoc, append_assoc]
  · exact h

theorem Sound.write_step (n : ℕ) : (c.write n).Sound := by
  have hframed : c.socket ++ c.writeBuffer.take n ++ c.writeBuffer.drop n =
      c.log.flatMap bytes := by
    rw [append_assoc, take_append_drop]
    exact h.framed
  have hflushed : c.writeBuffer = [] → c.writeBuffer.drop n = [] := fun hb => by
    rw [hb, drop_nil]
  unfold Connection.write
  dsimp only
  split
  · rename_i hstage
    have hread := h.read
    rw [hstage] at hread
    obtain ⟨lost, hlost, hnone⟩ := h.events
    split_ifs with hdone
    · exact { h with
        framed := hframed
        read := show c.received = _ by rw [show c.received = _ from hread, append_nil]; rfl
        events := ⟨lost, hlost, fun _ => hnone (by rw [hstage]; rfl)⟩
        flushed := fun _ => .inr (.inr hdone) }
    · exact { h with
        framed := hframed
        flushed := fun _ => .inl hstage }
  · exact { h with
      framed := hframed
      flushed := fun hnone => (h.flushed hnone).imp_right (Or.imp_right hflushed) }
  · exact h

/-- Messages of a subscriber go into the buffer, as far as it takes them. -/
theorem Sound.queueAll (hgreeted : Greeted c.log) {messages : List Message} {queue : List Event}
    {next : Stage} {subscriptions : Option (List Text)} (hsome : subscriptions ≠ none)
    (htaken : ∀ taken stage, taken <+: messages →
      stage = next ∧ taken = messages ∨ stage = .closed →
      stage.Read (c.answered ++ taken.filterMap request?) c.received ∧
      ∃ lost, c.log.filterMap event? ++ taken.filterMap event? ++ lost ++ queue =
          c.enqueued ∧ (stage.isClosed = false → lost = [])) :
    (Connection.queueAll messages { c with
      stage := next
      queue := queue
      subscriptions := subscriptions }).Sound := by
  obtain ⟨taken, size, stage, hbegin, he, hstage, hshort, hsize⟩ := queueAll_spec messages
    (c := { c with stage := next, queue := queue, subscriptions := subscriptions }) h.size
  obtain ⟨hread, hevents⟩ := htaken taken stage hbegin (hstage.imp_right And.left)
  rw [he]
  exact {
    framed := by
      change c.socket ++ (c.writeBuffer ++ _) = (c.log ++ taken).flatMap _
      rw [flatMap_append, ← h.framed, append_assoc]
    read := by
      change stage.Read ((c.log ++ taken).filterMap _) c.received
      rw [filterMap_append]
      exact hread
    events := by
      change ∃ lost, (c.log ++ taken).filterMap _ ++ lost ++ queue = c.enqueued ∧ _
      rw [filterMap_append]
      exact hevents
    size := hsize
    before := fun hnone => absurd hnone hsome
    flushed := fun hnone => absurd hnone hsome
    greeted := fun _ => hgreeted.append hshort }

theorem Sound.popEvent_step (rendering : Rendering) : (c.popEvent rendering).Sound := by
  unfold Connection.popEvent
  split
  · rename_i filled short subscriptions e queue hstage hsome hqueue
    obtain ⟨lost, hlost, hnone⟩ := h.events
    obtain rfl := hnone (by rw [hstage]; rfl)
    rw [append_nil, hqueue] at hlost
    have hne : c.subscriptions ≠ none := by rw [hsome]; exact nofun
    have hgreeted := h.greeted (by rw [hsome]; rfl)
    split
    · exact {
        framed := by
          rw [flatMap_append, ← h.framed]
          exact (append_nil _).symm
        read := by
          change c.stage.Read ((c.log ++ _).filterMap _) _
          rw [filterMap_append]
          exact (append_nil c.answered).symm ▸ h.read
        events := ⟨[], by simpa [event?] using hlost, fun _ => rfl⟩
        size := h.size
        before := fun hnone => absurd hnone hne
        flushed := fun hnone => absurd hnone hne
        greeted := fun _ => hgreeted.append fun m hm => by
          rw [mem_singleton.mp hm]
          exact (by decide : 0 < maxWriteBufferSize) }
    · rename_i frame _
      refine h.queueAll hgreeted hne fun taken stage hbegin hstage' => ?_
      rw [prefix_nil.mp (hbegin.filterMap request?), append_nil]
      rcases prefix_cons_iff.mp hbegin with rfl | ⟨rest, rfl, hrest⟩
      · rcases hstage' with ⟨-, hnil⟩ | rfl
        · cases hnil
        · exact ⟨h.read.close, [e], by simpa using hlost, fun hopen => nomatch hopen⟩
      · obtain rfl := prefix_nil.mp hrest
        refine ⟨?_, [], by simpa [event?] using hlost, fun _ => rfl⟩
        rcases hstage' with ⟨rfl, -⟩ | rfl
        · exact h.read
        · exact h.read.close
    · exact { h with
        read := h.read.close
        events := ⟨[e], by simpa using hlost, fun hopen => nomatch hopen⟩
        flushed := fun _ => .inr (.inl rfl) }
  · exact h

theorem Sound.answer_step (dispatched : List UInt8) : (c.answer fromSlice dispatched).Sound := by
  unfold Connection.answer
  split
  · rename_i r hstage
    have hread : c.received = frames (c.answered ++ [r]) := by
      have hread := h.read
      rw [hstage] at hread
      exact hread
    obtain ⟨lost, hlost, hnone⟩ := h.events
    obtain rfl := hnone (by rw [hstage]; rfl)
    rw [append_nil] at hlost
    obtain ⟨payload, ticks, hmessages, hrequests, hevents⟩ := exists_answers fromSlice r dispatched
    dsimp only
    split
    · -- the first loop: the reply is written at once
      rename_i hfirst
      have hempty : c.writeBuffer = [] := by
        rcases h.flushed hfirst with hw | hc | hb
        · rw [hstage] at hw
          cases hw
        · rw [hstage] at hc
          cases hc
        · exact hb
      obtain ⟨hqueued, hreplies⟩ := h.before hfirst
      have hwritten : c.socket = c.log.flatMap bytes := by
        rw [← h.framed, hempty, append_nil]
      exact {
        framed := by
          change c.socket ++ _ = (c.log ++ _).flatMap _
          rw [flatMap_append, hwritten]
        read := by
          change c.received = frames ((c.log ++ _).filterMap _)
          rw [hread, hmessages, filterMap_append, filterMap_cons, hrequests]
          rfl
        events := by
          refine ⟨[], ?_, fun _ => rfl⟩
          change (c.log ++ _).filterMap _ ++ [] ++ c.queue = c.enqueued
          rw [hmessages, filterMap_append, filterMap_cons, hevents]
          simpa [event?] using hlost
        size := h.size
        before := by
          intro hnot
          refine ⟨hqueued, fun m hm => ?_⟩
          rcases answers_spec fromSlice r dispatched with ⟨p, ha⟩ | ⟨requested, _, ha, -, -⟩
          · rw [ha] at hm
            rcases mem_append.mp hm with hm | hm
            · exact hreplies m hm
            · rw [mem_singleton.mp hm]
              rfl
          · rw [ha] at hnot
            cases hnot
        flushed := fun _ => .inl rfl
        greeted := by
          intro hsome
          rcases answers_spec fromSlice r dispatched with ⟨p, ha⟩ | ⟨requested, t, ha, hs, ht⟩
          · rw [ha] at hsome
            cases hsome
          change Greeted (c.log ++ (answers fromSlice r dispatched).1)
          rw [ha]
          refine ⟨c.log, r, t, rfl, hreplies, hs, fun m hm => ?_⟩
          rcases ht with rfl | rfl
          · cases hm
          · rw [mem_singleton.mp hm]
            decide }
    · -- the select loop: the answers go into the buffer
      rename_i subscriptions hsome
      refine h.queueAll (h.greeted (by rw [hsome]; rfl)) nofun fun taken stage hbegin hstage' => ?_
      rw [hmessages] at hbegin hstage'
      have hnoevents : taken.filterMap event? = [] := by
        have hle := hbegin.filterMap event?
        rw [filterMap_cons, hevents] at hle
        exact prefix_nil.mp hle
      refine ⟨?_, [], ?_, fun _ => rfl⟩
      · rcases prefix_cons_iff.mp hbegin with rfl | ⟨rest, rfl, hrest⟩
        · rcases hstage' with ⟨-, hnil⟩ | rfl
          · cases hnil
          · exact .inr ⟨r, by rw [hread, filterMap_nil, append_nil]⟩
        · have hle := hrest.filterMap request?
          rw [hrequests] at hle
          have hidle : Stage.idle.Read (c.answered ++ [r]) c.received := by
            rw [hread]
            exact (append_nil _).symm
          rw [filterMap_cons, prefix_nil.mp hle]
          rcases hstage' with ⟨rfl, -⟩ | rfl
          · exact hidle
          · exact hidle.close
      · rw [hnoevents, append_nil, append_nil]
        exact hlost
  · exact h

theorem Sound.enqueue_step (e : Event) : (c.step fromSlice (.enqueue e)).Sound := by
  unfold Connection.step
  dsimp only
  split_ifs with hcond
  · simp only [Bool.and_eq_true, Bool.not_eq_true', Option.isSome_iff_ne_none] at hcond
    obtain ⟨lost, hlost, hnone⟩ := h.events
    exact { h with
      events := ⟨lost, by rw [← hlost]; simp, hnone⟩
      before := fun hn => absurd hn hcond.1.1
      flushed := fun hn => absurd hn hcond.1.1 }
  · exact h

/-- **Every step keeps the invariant.** -/
theorem Sound.step (a : StreamInput) : (c.step fromSlice a).Sound := by
  cases a with
  | send bytes => exact { h with }
  | read n => exact h.read_step n
  | answer dispatched => exact h.answer_step fromSlice dispatched
  | write n => exact h.write_step n
  | enqueue e => exact h.enqueue_step fromSlice e
  | event rendering => exact h.popEvent_step rendering
  | hangUp | writeError | eventsClosed | disconnect =>
    unfold Connection.step
    dsimp only
    split
    all_goals first | exact h.close | exact h

theorem Sound.run (actions : List StreamInput) : (c.run fromSlice actions).Sound := by
  induction actions generalizing c with
  | nil => exact h
  | cons a actions ih => exact ih (h.step fromSlice a)

end

/-! ## 3. What is taken from the client, and why a connection closes -/

theorem queueAll_frame (messages : List Message) (c : Connection) :
    ∃ buffer size log stage, c.queueAll messages = { c with
        writeBuffer := buffer
        writeBufferSize := size
        log := log
        stage := stage } ∧ (stage = c.stage ∨ stage = .closed) := by
  induction messages generalizing c with
  | nil => exact ⟨_, _, _, _, rfl, .inl rfl⟩
  | cons m messages ih =>
    rw [queueAll]
    split
    · rename_i buffer size hqueue
      obtain ⟨buffer, size, log, stage, he, hstage⟩ := ih
        { c with writeBuffer := buffer, writeBufferSize := size, log := c.log ++ [m] }
      exact ⟨buffer, size, log, stage, he, hstage⟩
    · exact ⟨_, _, _, _, rfl, .inr rfl⟩

theorem received_consume {got : List UInt8} (h : got <+: c.incoming) :
    (c.consume got).received ++ (c.consume got).incoming = c.received ++ c.incoming := by
  change c.received ++ got ++ c.incoming.drop got.length = _
  rw [append_assoc, prefix_iff_eq_append.mp h]

/-- No byte of the client is lost, repeated or moved. -/
theorem received_step (a : StreamInput) :
    (c.step fromSlice a).received ++ (c.step fromSlice a).incoming =
      c.received ++ c.incoming ++ a.sent := by
  cases a with
  | send bytes => exact (append_assoc _ _ _).symm
  | read n =>
    refine Eq.trans ?_ (append_nil _).symm
    change (c.read n).received ++ (c.read n).incoming = _
    unfold Connection.read
    split
    · exact received_consume <| take_prefix _ _
    · exact received_consume <| take_prefix _ _
    · rfl
  | answer dispatched =>
    refine Eq.trans ?_ (append_nil _).symm
    change (c.answer fromSlice dispatched).received ++ (c.answer fromSlice dispatched).incoming = _
    unfold Connection.answer
    split
    · dsimp only
      split
      · rfl
      · obtain ⟨_, _, _, _, he, -⟩ := queueAll_frame (answers fromSlice _ dispatched).1 _
        rw [he]
    · rfl
  | write n =>
    refine Eq.trans ?_ (append_nil _).symm
    change (c.write n).received ++ (c.write n).incoming = _
    unfold Connection.write
    dsimp only
    split
    · split <;> rfl
    · rfl
    · rfl
  | event rendering =>
    refine Eq.trans ?_ (append_nil _).symm
    change (c.popEvent rendering).received ++ (c.popEvent rendering).incoming = _
    unfold Connection.popEvent
    split
    · split
      · rfl
      · obtain ⟨_, _, _, _, he, -⟩ := queueAll_frame [.event _ (some _)] _
        rw [he]
      · rfl
    · rfl
  | enqueue _ | hangUp | writeError | eventsClosed | disconnect =>
    refine Eq.trans ?_ (append_nil _).symm
    unfold Connection.step
    dsimp only
    split <;> rfl

theorem received_run (c : Connection) (actions : List StreamInput) :
    (c.run fromSlice actions).received ++ (c.run fromSlice actions).incoming =
      c.received ++ c.incoming ++ actions.flatMap StreamInput.sent := by
  induction actions generalizing c with
  | nil => exact (append_nil _).symm
  | cons a actions ih =>
    rw [flatMap_cons, ← append_assoc, ← received_step fromSlice a]
    exact ih _

/-- What can end a connection: a header that is refused, an event that cannot be formatted, a
message that finds no room, or the world outside. -/
def Breaks (c : Connection) : StreamInput → Prop
  | .read n => ∃ filled short buf, c.stage = .header filled short ∧
      buf = filled ++ c.incoming.take (min n (headerSize - filled.length)) ∧
      headerSize ≤ buf.length ∧ refused buf = true
  | .answer dispatched => ∃ r, c.stage = .answering r ∧
      2097152 ≤ (c.writeBuffer ++ (answers fromSlice r dispatched).1.flatMap bytes).length
  | .event rendering => ∃ subscriptions e queue,
      c.subscriptions = some subscriptions ∧ c.queue = e :: queue ∧
        (eventFrame subscriptions e rendering = none ∨
          ∃ frame, eventFrame subscriptions e rendering = some (some frame) ∧
            2097152 ≤ (c.writeBuffer ++ encodeRawBytes frame.1 frame.2).length)
  | .hangUp | .writeError | .eventsClosed | .disconnect => True
  | .send _ | .write _ | .enqueue _ => False

/-- A connection closes for one of these reasons only. -/
theorem Sound.breaks (h : c.Sound) {a : StreamInput} (hopen : c.stage.isClosed = false)
    (hclosed : (c.step fromSlice a).stage.isClosed = true) : c.Breaks fromSlice a := by
  have hsame : c.stage.isClosed ≠ true := by rw [hopen]; exact Bool.false_ne_true
  cases a with
  | hangUp | writeError | eventsClosed | disconnect => trivial
  | send bytes => exact hsame hclosed
  | read n =>
    change (c.read n).stage.isClosed = true at hclosed
    unfold Connection.read at hclosed
    split at hclosed
    · rename_i filled short hstage
      obtain ⟨hlong, hrefused⟩ := Stage.refused_of_afterHeader hclosed
      exact ⟨filled, short, _, hstage, rfl, hlong, hrefused⟩
    · dsimp only [Stage.afterPayload] at hclosed
      split at hclosed <;> cases hclosed
    · exact absurd hclosed hsame
  | answer dispatched =>
    change (c.answer fromSlice dispatched).stage.isClosed = true at hclosed
    unfold Connection.answer at hclosed
    split at hclosed
    · rename_i r hstage
      dsimp only at hclosed
      split at hclosed
      · cases hclosed
      rename_i subscriptions hsome
      obtain ⟨taken, size, stage, -, he, hstage', -⟩ := queueAll_spec
        (answers fromSlice r dispatched).1 (c := { c with
          stage := .idle
          subscriptions := some (subscriptions ++ (answers fromSlice r dispatched).2.getD []) })
        h.size
      rw [he] at hclosed
      rcases hstage' with ⟨rfl, -⟩ | ⟨-, hlong⟩
      · cases hclosed
      · exact ⟨r, hstage, hlong⟩
    · exact absurd hclosed hsame
  | write n =>
    change (c.write n).stage.isClosed = true at hclosed
    unfold Connection.write at hclosed
    dsimp only at hclosed
    split at hclosed
    · split at hclosed
      · cases hclosed
      · exact hsame hclosed
    · exact hsame hclosed
    · exact hsame hclosed
  | enqueue e =>
    unfold Connection.step at hclosed
    dsimp only at hclosed
    split at hclosed <;> exact hsame hclosed
  | event rendering =>
    change (c.popEvent rendering).stage.isClosed = true at hclosed
    unfold Connection.popEvent at hclosed
    split at hclosed
    · rename_i filled short subscriptions e queue hstage hsome hqueue
      refine ⟨subscriptions, e, queue, hsome, hqueue, ?_⟩
      split at hclosed
      · exact absurd hclosed hsame
      · rename_i frame hframe
        obtain ⟨taken, size, stage, -, he, hstage', -⟩ := queueAll_spec
          [.event e (some frame)] (c := { c with queue := queue }) h.size
        rw [he] at hclosed
        rcases hstage' with ⟨rfl, -⟩ | ⟨-, hlong⟩
        · exact absurd hclosed hsame
        · rw [flatMap_singleton] at hlong
          exact .inr ⟨frame, hframe, hlong⟩
      · rename_i hnone
        exact .inl hnone
    · exact absurd hclosed hsame

theorem breaks_run (actions : List StreamInput)
    (h : (({} : Connection).run fromSlice actions).stage.isClosed = true) :
    ∃ before a after, actions = before ++ a :: after ∧
      (({} : Connection).run fromSlice before).Breaks fromSlice a := by
  induction actions using List.reverseRecOn with
  | nil => cases h
  | append_singleton actions a ih =>
    by_cases hbefore : (({} : Connection).run fromSlice actions).stage.isClosed = true
    · obtain ⟨before, b, after, rfl, hbreaks⟩ := ih hbefore
      exact ⟨before, b, after ++ [a], by simp, hbreaks⟩
    · refine ⟨actions, a, [], rfl, ?_⟩
      unfold Connection.run at h
      rw [foldl_concat] at h
      exact (sound_empty.run fromSlice actions).breaks fromSlice (by simpa using hbefore) h

/-! ## 4. Progress -/

/-- No input that is the server's own work changes anything any more. -/
def Quiet (c : Connection) : Prop := ∀ a : StreamInput, a.isWork = true → c.step fromSlice a = c

/-- One piece of work that does something. -/
def Works (c' c : Connection) : Prop :=
  ∃ a : StreamInput, a.isWork = true ∧ c' = c.step fromSlice a ∧ c' ≠ c

/-- How much work is left: bytes to be read and the request in hand, then events, then bytes to be
written. -/
def remaining (c : Connection) : ℕ × ℕ × ℕ :=
  (3 * c.incoming.length + c.stage.rank, c.queue.length, c.writeBuffer.length)

/-- The lexicographic order. -/
def Less : ℕ × ℕ × ℕ → ℕ × ℕ × ℕ → Prop := Prod.Lex (· < ·) (Prod.Lex (· < ·) (· < ·))

theorem remaining_consume {got : List UInt8} {stage : Stage} (hgot : got ≠ [])
    (h : got <+: c.incoming) : Less (remaining { c.consume got with stage := stage }) c.remaining := by
  refine Prod.Lex.left _ _ ?_
  change 3 * (c.incoming.drop got.length).length + stage.rank < _
  have hpos : 0 < got.length := length_pos_iff.mpr hgot
  have hle : got.length ≤ c.incoming.length := h.length_le
  have hrank : stage.rank ≤ 2 := stage.rank_le
  rw [length_drop]
  omega

theorem remaining_read (n : ℕ) (hne : c.read n ≠ c) : Less (c.read n).remaining c.remaining := by
  unfold Connection.read at hne ⊢
  split at hne
  · rename_i filled short hstage
    refine remaining_consume (fun hnone => hne ?_) <| take_prefix _ _
    dsimp only
    rw [hnone, append_nil, Stage.afterHeader, dif_pos short, ← hstage]
    simp [consume]
  · rename_i rawType len filled fits short hstage
    refine remaining_consume (fun hnone => hne ?_) <| take_prefix _ _
    dsimp only
    simp only [hnone, append_nil]
    rw [Stage.afterPayload, dif_pos short, ← hstage]
    simp [consume]
  · exact absurd rfl hne

theorem remaining_answer (dispatched : List UInt8) (hne : c.answer fromSlice dispatched ≠ c) :
    Less (c.answer fromSlice dispatched).remaining c.remaining := by
  unfold Connection.answer at hne ⊢
  split at hne
  · rename_i r hstage
    dsimp only
    have hless : ∀ {c' : Connection}, c'.incoming = c.incoming → c'.stage.rank ≤ 1 →
        Less c'.remaining c.remaining := by
      intro c' hincoming hrank
      refine Prod.Lex.left _ _ ?_
      rw [hincoming, hstage]
      exact Nat.add_lt_add_left (Nat.lt_succ_of_le hrank) _
    split
    · exact hless rfl (Nat.le_refl 1)
    · obtain ⟨_, _, _, stage, he, hstage'⟩ := queueAll_frame (answers fromSlice r dispatched).1 _
      rw [he]
      refine hless rfl ?_
      rcases hstage' with rfl | rfl
      all_goals exact Nat.zero_le 1
  · exact absurd rfl hne

theorem remaining_write (n : ℕ) (hne : c.write n ≠ c) : Less (c.write n).remaining c.remaining := by
  have hdrop : c.writeBuffer.drop n ≠ c.writeBuffer →
      (c.writeBuffer.drop n).length < c.writeBuffer.length := by
    intro hchanged
    rw [length_drop]
    rcases Nat.eq_zero_or_pos n with rfl | hn
    · exact absurd rfl hchanged
    rcases Nat.eq_zero_or_pos c.writeBuffer.length with hnil | hpos
    · rw [eq_nil_of_length_eq_zero hnil, drop_nil] at hchanged
      exact absurd rfl hchanged
    · omega
  -- what is not dropped from the buffer is not written either
  have hwrite : c.writeBuffer.drop n = c.writeBuffer → c.writeBuffer.take n = [] := by
    intro hsame
    have happend := take_append_drop n c.writeBuffer
    rwa [hsame, append_left_eq_self] at happend
  unfold Connection.write at hne ⊢
  dsimp only at hne ⊢
  split at hne
  · rename_i hstage
    split at hne
    · rename_i hdone
      rw [if_pos hdone]
      refine Prod.Lex.left _ _ ?_
      rw [hstage]
      exact Nat.lt_succ_self _
    · rename_i hmore
      rw [if_neg hmore]
      refine Prod.Lex.right _ (Prod.Lex.right _ (hdrop fun hsame => hne ?_))
      rw [hsame, hwrite hsame, append_nil]
  · refine Prod.Lex.right _ (Prod.Lex.right _ (hdrop fun hsame => hne ?_))
    rw [hsame, hwrite hsame, append_nil]
  · exact absurd rfl hne

theorem remaining_popEvent (rendering : Rendering) (hne : c.popEvent rendering ≠ c) :
    Less (c.popEvent rendering).remaining c.remaining := by
  unfold Connection.popEvent at hne ⊢
  split at hne
  · rename_i filled short subscriptions e queue hstage hsome hqueue
    have hless : ∀ {c' : Connection}, c'.incoming = c.incoming → c'.stage.rank = 0 →
        c'.queue = queue → Less c'.remaining c.remaining := by
      intro c' hincoming hrank hqueue'
      unfold remaining
      rw [hincoming, hrank, hqueue', hstage, hqueue]
      exact Prod.Lex.right _ (Prod.Lex.left _ _ (Nat.lt_succ_self _))
    have hrank : c.stage.rank = 0 := by rw [hstage]; rfl
    split
    · exact hless rfl hrank rfl
    · rename_i frame hframe
      obtain ⟨_, _, _, stage, he, hstage'⟩ :=
        queueAll_frame [.event e (some frame)] { c with queue := queue }
      rw [he]
      refine hless rfl ?_ rfl
      rcases hstage' with rfl | rfl
      · exact hrank
      · rfl
    · exact hless rfl rfl rfl
  · exact absurd rfl hne

/-- **Work comes to an end**, in whatever order it is done. -/
theorem works_wellFounded : WellFounded (Works fromSlice) := by
  have hwf : WellFounded Less := (Prod.lex Nat.lt_wfRel (Prod.lex Nat.lt_wfRel Nat.lt_wfRel)).wf
  refine Subrelation.wf ?_ (InvImage.wf remaining hwf)
  rintro c' c ⟨a, hwork, rfl, hne⟩
  cases a with
  | read n => exact remaining_read n hne
  | answer dispatched => exact remaining_answer fromSlice dispatched hne
  | write n => exact remaining_write n hne
  | event rendering => exact remaining_popEvent rendering hne
  | send bytes | enqueue e | hangUp | writeError | eventsClosed | disconnect => cases hwork

theorem incoming_eq_nil {k : ℕ} (hk : 0 < k) {stage : Stage}
    (he : { c.consume (c.incoming.take k) with stage := stage } = c) : c.incoming = [] := by
  have hreceived : c.received ++ c.incoming.take k = c.received := congrArg received he
  rw [append_right_eq_self, take_eq_nil_iff] at hreceived
  exact hreceived.resolve_left (by omega)

theorem Sound.queue_eq_nil (h : c.Sound) {filled : List UInt8} {short : filled.length < headerSize}
    (hstage : c.stage = .header filled short) (hquiet : c.popEvent .nothing = c) :
    c.queue = [] := by
  cases hsome : c.subscriptions with
  | none =>
    obtain ⟨lost, hlost, -⟩ := h.events
    rw [(h.before hsome).1] at hlost
    exact (append_eq_nil_iff.mp hlost).2
  | some subscriptions =>
    cases hqueue : c.queue with
    | nil => rfl
    | cons e queue =>
      have hne : queue ≠ e :: queue := fun he => absurd (congrArg length he) (by simp)
      refine absurd ?_ hne
      rw [← hqueue, ← congrArg Connection.queue hquiet]
      simp only [Connection.popEvent, hstage, hsome, hqueue]
      split
      · rfl
      · obtain ⟨_, _, _, _, he, -⟩ := queueAll_frame [.event e (some _)] _
        rw [he]
      · rfl

/-- **What is done when no work is left.** -/
theorem Sound.quiet (h : c.Sound) (hquiet : c.Quiet fromSlice)
    (hopen : c.stage.isClosed = false) :
    c.incoming = [] ∧ ∃ tail, c.received = frames c.answered ++ tail ∧ Stops tail ∧ Clean tail ∧
      (tail.length < headerSize → c.writeBuffer = [] ∧ c.queue = []) := by
  have hread := h.read
  have hreads : ∀ n, c.read n = c := fun n => hquiet (.read n) rfl
  have hwrites : c.write c.writeBuffer.length = c := hquiet (.write _) rfl
  cases hstage : c.stage with
  | header filled short =>
    rw [hstage] at hread
    refine ⟨?_, filled, hread, stops_of_length_lt short, clean_of_length_lt short, fun _ => ⟨?_, ?_⟩⟩
    · have hall := hreads headerSize
      simp only [Connection.read, hstage] at hall
      exact incoming_eq_nil (by omega) hall
    · have hnone := congrArg writeBuffer hwrites
      simp only [Connection.write, hstage, drop_length] at hnone
      exact hnone.symm
    · exact h.queue_eq_nil hstage (hquiet (.event .nothing) rfl)
  | payload rawType len filled fits short =>
    rw [hstage] at hread
    refine ⟨?_, _, hread, stops_of_short short, clean_of_short fits, fun hshort => ?_⟩
    · have hall := hreads len.toNat
      simp only [Connection.read, hstage] at hall
      exact incoming_eq_nil (by omega) hall
    · -- the loop stands still inside a payload: nothing is written there
      rw [length_append, length_header] at hshort
      omega
  | answering r =>
    have hanswer := congrArg stage (hquiet (.answer []) rfl)
    simp only [Connection.step, Connection.answer, hstage] at hanswer
    split at hanswer
    · cases hanswer
    · obtain ⟨_, _, _, _, he, hstage'⟩ := queueAll_frame (answers fromSlice r []).1 _
      rw [he] at hanswer
      rcases hstage' with rfl | rfl
      · cases hanswer
      · cases hanswer
  | writing =>
    have hwrite := congrArg stage hwrites
    simp only [Connection.write, hstage, drop_length, if_true] at hwrite
    cases hwrite
  | closed =>
    rw [hstage] at hopen
    cases hopen

/-! ## 5. Every run -/

/-- The requests in what is read, all answered but the one in hand, and what is read of the next. -/
theorem Sound.requests (h : c.Sound) :
    ∃ requests tail, c.received = frames requests ++ tail ∧ Cut tail ∧
      (c.stage = .closed ∨ Clean tail) ∧
      (c.answered = requests ∨ ∃ r, c.answered ++ [r] = requests ∧ tail = [] ∧
        (c.stage = .answering r ∨ c.stage = .closed)) := by
  have hread := h.read
  have hnil : ([] : List UInt8).length < headerSize := by decide
  cases hstage : c.stage with
  | header filled short =>
    rw [hstage] at hread
    exact ⟨c.answered, filled, hread, .of_length_lt short, .inr (clean_of_length_lt short), .inl rfl⟩
  | payload rawType len filled fits short =>
    rw [hstage] at hread
    exact ⟨c.answered, _, hread, .of_short fits short, .inr (clean_of_short fits), .inl rfl⟩
  | answering r =>
    rw [hstage] at hread
    exact ⟨c.answered ++ [r], [], hread.trans (append_nil _).symm, .of_length_lt hnil,
      .inr (clean_of_length_lt hnil), .inr ⟨r, rfl, rfl, .inl rfl⟩⟩
  | writing =>
    rw [hstage] at hread
    exact ⟨c.answered, [], hread.trans (append_nil _).symm, .of_length_lt hnil,
      .inr (clean_of_length_lt hnil), .inl rfl⟩
  | closed =>
    rw [hstage] at hread
    rcases hread with ⟨tail, hcut, hread⟩ | ⟨r, hread⟩
    · exact ⟨c.answered, tail, hread, hcut, .inl rfl, .inl rfl⟩
    · exact ⟨c.answered ++ [r], [], hread.trans (append_nil _).symm, .of_length_lt hnil, .inl rfl,
        .inr ⟨r, rfl, rfl, .inr rfl⟩⟩

/-- An open connection has read no header that is refused. -/
theorem Sound.not_refused (h : c.Sound) {requests : List Request} {buf more : List UInt8}
    (he : c.received = frames requests ++ (buf ++ more)) (hlen : buf.length = headerSize)
    (hrefused : refused buf = true) :
    c.stage = .closed ∧ more = [] ∧ c.answered = requests := by
  obtain ⟨requests', tail, hread, hcut, hclean, hanswered⟩ := h.requests
  -- the stream can be cut in one way only
  obtain ⟨rfl, rfl⟩ := frames_append_inj (hread.symm.trans he) hcut.stops
    (stops_of_refused hlen hrefused)
  refine ⟨hclean.resolve_right fun hc => hc buf more hlen hrefused rfl,
    hcut.last buf more hlen hrefused rfl, ?_⟩
  rcases hanswered with hsame | ⟨r, -, hnil, -⟩
  · exact hsame
  · rw [(append_eq_nil_iff.mp hnil).1] at hlen
    cases hlen

/-- A short message announces its own length. -/
theorem decodeHeaderRaw_bytes {m : Message} (h : m.bytes.length < maxWriteBufferSize)
    {frame : UInt32 × List UInt8} (hframe : m.frame? = some frame) :
    m.bytes = encodeRawBytes frame.1 frame.2 ∧
      ∃ len, decodeHeaderRaw (m.bytes.take headerSize) = some (frame.1, len) ∧
        len.toNat = frame.2.length := by
  have hbytes : m.bytes = encodeRawBytes frame.1 frame.2 := by rw [bytes, hframe]
  rw [hbytes, length_encodeRawBytes] at h
  refine ⟨hbytes, ?_⟩
  rw [hbytes]
  refine decodeHeaderRaw_encodeRawBytes _ _ ?_
  have hmax : maxWriteBufferSize < 2 ^ 32 := by decide
  omega

theorem enqueued_of_room (h : c.subscriptions.isSome = true) (hopen : c.stage.isClosed = false)
    (hroom : c.queue.length < queueCapacity) (e : Event) :
    (c.step fromSlice (.enqueue e)).enqueued = c.enqueued ++ [e] := by
  simp [Connection.step, h, hopen, hroom]

end Steps

end Connection

end Swayward.Ipc
