/-
  File:      Swayward/Ipc/Connection.lean
  Subject:   ONE CONNECTION of the IPC socket (`handle_client`, `handle_event_stream_client`,
             `queue_ipc_message` in `ipc/server/transport.rs`).

  A client is served in two loops. Before its first accepted SUBSCRIBE requests are read, answered
  and their replies written, one after the other. From then on one loop waits for whatever is ready:
  bytes of a header, room on the socket, an event of the queue, the order to disconnect. Replies and
  events go into one write buffer, of which any number of bytes may be written at a time. Payloads
  are read and requests answered with the loop standing still.

  What the outside world does is a `StreamInput`: what the client sends and how it is cut into
  reads, how much a write takes, what the compositor answers and how it renders an event, and which
  of the ready inputs is taken. `received`, `socket`, `enqueued` and `log` are history.

  * `queueIpcMessage_bound`  -- when the write buffer refuses a message, for every run of it;
  * `Connection.step`        -- both loops, one input at a time.
-/
import Swayward.Ipc.Wire
import Swayward.Ipc.Fanout

namespace Swayward.Ipc

variable {rawType len : UInt32} {filled : List UInt8}

open List

/-! ## 1. Messages to the client -/

/-- `{"success": true}` -/
def successReply : List UInt8 := ascii "\x7b\"success\": true\x7d"

/-- `{"success": false}` -/
def failureReply : List UInt8 := ascii "\x7b\"success\": false\x7d"

/-- `{"success":false,"error":"not implemented"}` -/
def notImplementedReply : List UInt8 :=
  ascii "\x7b\"success\":false,\"error\":\"not implemented\"\x7d"

/-- `{"first":true,"payload":""}` -/
def firstTickPayload : List UInt8 := ascii "\x7b\"first\":true,\"payload\":\"\"\x7d"

/-- `IPC_SYNC` -/
def ipcSync : UInt32 := 11

/-- What the server has for a client, in the order it comes up: the reply to a request, the tick
that follows a subscription to ticks, and an event of the queue with its frame, or with none if the
client did not ask for it. -/
inductive Message
  | reply (r : Request) (payload : List UInt8)
  | firstTick
  | event (e : Event) (frame : Option (UInt32 × List UInt8))

namespace Message

/-- The type and the payload of a message, if it is sent at all. -/
def frame? : Message → Option (UInt32 × List UInt8)
  | reply r payload => some (r.rawType, payload)
  | firstTick => some (UInt32.ofNat SwayEventType.tick.code, firstTickPayload)
  | event _ frame => frame

def bytes (m : Message) : List UInt8 :=
  match m.frame? with
  | some (msgType, payload) => encodeRawBytes msgType payload
  | none => []

def request? : Message → Option Request
  | reply r _ => some r
  | _ => none

def event? : Message → Option Event
  | event e _ => some e
  | _ => none

def isReply (m : Message) : Bool := m.request?.isSome

end Message

open Message

/-! ## 2. The connection -/

/-- Where the client's task stands. -/
inductive Stage
  /-- waiting for a header, of which `filled` is read -/
  | header (filled : List UInt8) (short : filled.length < headerSize)
  /-- inside `read_exact(&mut payload)` -/
  | payload (rawType len : UInt32) (filled : List UInt8) (fits : len.toNat ≤ maxPayloadSize)
      (short : filled.length < len.toNat)
  /-- waiting for the compositor: `dispatch` or `refresh_event_state` -/
  | answering (r : Request)
  /-- inside `write_all`, in the first loop -/
  | writing
  | closed

/-- The header buffer when nothing of the next header is read. -/
def Stage.idle : Stage := .header [] (by decide)

def Stage.isClosed : Stage → Bool
  | .closed => true
  | _ => false

/-- The payload so far: if it is complete the request is answered. -/
def Stage.afterPayload (rawType len : UInt32) (filled : List UInt8)
    (fits : len.toNat ≤ maxPayloadSize) (hle : filled.length ≤ len.toNat) : Stage :=
  if short : filled.length < len.toNat then .payload rawType len filled fits short
  else .answering ⟨rawType, filled, hle.trans fits⟩

/-- The header so far: if it is complete it is decoded, or refused. -/
def Stage.afterHeader (buf : List UInt8) : Stage :=
  if short : buf.length < headerSize then .header buf short
  else if buf = closeSentinel then .closed
  else match decodeHeaderRaw buf with
    | none => .closed
    | some (rawType, len) =>
      if fits : len.toNat ≤ maxPayloadSize then
        .afterPayload rawType len [] fits (Nat.zero_le _)
      else .closed

structure Connection where
  stage : Stage := .idle
  /-- `none` in the first loop -/
  subscriptions : Option (List Text) := none
  queue : List Event := []
  /-- what is still to be written; in the first loop, of the current `write_all` -/
  writeBuffer : List UInt8 := []
  /-- `INITIAL_WRITE_BUFFER_SIZE` at first -/
  writeBufferSize : ℕ := 128
  /-- sent by the client and not read yet -/
  incoming : List UInt8 := []
  received : List UInt8 := []
  socket : List UInt8 := []
  enqueued : List Event := []
  log : List Message := []

/-- The client's data that `sway_event` and `serde_json` make of an event. -/
inductive Rendering
  /-- `sway_event` has no sway event for it -/
  | nothing
  /-- `error formatting event` -/
  | failed
  | payload (json : List UInt8)

/-- What happens to a connection. -/
inductive StreamInput
  /-- the client sends -/
  | send (bytes : List UInt8)
  /-- a read of at most so many bytes -/
  | read (n : ℕ)
  /-- a read that finds the end of the stream or fails -/
  | hangUp
  /-- the compositor has answered -/
  | answer (dispatched : List UInt8)
  /-- a write that takes at most so many bytes -/
  | write (n : ℕ)
  | writeError
  /-- the server queues an event -/
  | enqueue (e : Event)
  /-- `events.recv` has one -/
  | event (rendering : Rendering)
  /-- `events.recv` has none and the sender is gone -/
  | eventsClosed
  | disconnect

/-! ## 3. Subscriptions and answers -/

/-- `SwayEventType::subscription_name` -/
def SwayEventType.subscriptionName : SwayEventType → Text
  | .workspace => "workspace".toList
  | .output => "output".toList
  | .mode => "mode".toList
  | .window => "window".toList
  | .binding => "binding".toList
  | .shutdown => "shutdown".toList
  | .tick => "tick".toList
  | .input => "input".toList

/-- The families `parse_subscriptions` accepts. -/
def eventFamilies : List Text :=
  ["workspace".toList, "output".toList, "mode".toList, "shutdown".toList, "window".toList,
    "barconfig_update".toList, "bar_state_update".toList, "binding".toList, "tick".toList,
    "input".toList]

section Server

-- `serde_json::from_slice` into a list of strings
variable (fromSlice : List UInt8 → Option (List Text))

/-- `parse_subscriptions` -/
def parseSubscriptions (payload : List UInt8) : Option (List Text) := do
  let subscriptions ← fromSlice payload
  if subscriptions.all (· ∈ eventFamilies) then some subscriptions else none

/-- The reply to a request other than SUBSCRIBE. -/
def replyPayload (r : Request) (dispatched : List UInt8) : List UInt8 :=
  match MessageType.tryFrom r.rawType with
  | some _ => dispatched
  | none => if r.rawType = ipcSync then failureReply else notImplementedReply

/-- What a request is answered with, and the families it subscribes to. -/
def answers (r : Request) (dispatched : List UInt8) : List Message × Option (List Text) :=
  if MessageType.tryFrom r.rawType = some .subscribe then
    match parseSubscriptions fromSlice r.payload with
    | none => ([.reply r failureReply], none)
    | some requested =>
      (.reply r successReply :: (if "tick".toList ∈ requested then [.firstTick] else []),
        some requested)
  else ([.reply r (replyPayload r dispatched)], none)

/-- The frame of an event for a client, `some none` if it gets none; `none` is an error. -/
def eventFrame (subscriptions : List Text) (e : Event) (rendering : Rendering) :
    Option (Option (UInt32 × List UInt8)) :=
  match e with
  | .tick payload first =>
    if SwayEventType.tick.subscriptionName ∈ subscriptions then
      some (some (UInt32.ofNat SwayEventType.tick.code,
        ascii "\x7b \"first\": " ++ ascii (if first then "true" else "false") ++
          ascii ", \"payload\": \"" ++ payload ++ ascii "\" \x7d"))
    else some none
  | e =>
    match e.swayEventType, rendering with
    | none, _ | _, .nothing => some none
    | some eventType, rendering =>
      if eventType.subscriptionName ∈ subscriptions then
        match rendering with
        | .payload json => some (some (UInt32.ofNat eventType.code, json))
        | _ => none
      else some none

/-! ## 4. The write buffer -/

/-- `MAX_WRITE_BUFFER_SIZE` -/
def maxWriteBufferSize : ℕ := 4000000

/-- The loop of `queue_ipc_message`: double until what is queued fits. -/
def grow (need size : ℕ) : ℕ :=
  if size ≤ need ∧ 0 < size then grow need (size * 2) else size
termination_by need + 1 - size
decreasing_by omega

/-- `queue_ipc_message`: the buffer and its nominal size, or nothing if the client is too slow. -/
def queueIpcMessage (buffer : List UInt8) (bufferSize : ℕ) (message : List UInt8) :
    Option (List UInt8 × ℕ) :=
  let size := grow (buffer.length + message.length) bufferSize
  if maxWriteBufferSize < size then none else some (buffer ++ message, size)

theorem lt_grow {need size : ℕ} (h : 0 < size) : need < grow need size := by
  induction size using grow.induct need with
  | case1 size hmore ih =>
    rw [grow, if_pos hmore]
    exact ih (by omega)
  | case2 size hdone =>
    rw [grow, if_neg hdone]
    omega

theorem le_grow (need size : ℕ) : size ≤ grow need size := by
  induction size using grow.induct need with
  | case1 size hmore ih =>
    rw [grow, if_pos hmore]
    omega
  | case2 size hdone => rw [grow, if_neg hdone]

/-- A write buffer with its nominal size; a call that fails marks the client as dropped, leaves
the bytes and keeps the size it grew to. -/
structure WriteBuffer where
  bytes : List UInt8 := []
  size : ℕ := 128
  dropped : Bool := false

inductive WriteStep
  | queue (message : List UInt8)
  | drain (written : ℕ)

def WriteBuffer.step (w : WriteBuffer) : WriteStep → WriteBuffer
  | .queue message =>
    match queueIpcMessage w.bytes w.size message with
    | some (bytes, size) => { w with bytes, size }
    | none => { w with size := grow (w.bytes.length + message.length) w.size, dropped := true }
  | .drain written => { w with bytes := w.bytes.drop written }

def WriteBuffer.run (steps : List WriteStep) : WriteBuffer := steps.foldl step {}

/-- The sizes are `128 * 2 ^ k`, and one below the limit is enough for what is below the limit. -/
theorem grow_pow (need k : ℕ) :
    ∃ j, grow need (128 * 2 ^ k) = 128 * 2 ^ j ∧ (need < 128 * 2 ^ 14 → k ≤ 14 → j ≤ 14) := by
  induction hsize : 128 * 2 ^ k using grow.induct need generalizing k with
  | case1 size hmore ih =>
    subst hsize
    obtain ⟨j, hj, hle⟩ := ih (k + 1) (by omega)
    refine ⟨j, by rw [grow, if_pos hmore, hj], fun hneed _ => hle hneed ?_⟩
    exact (Nat.pow_lt_pow_iff_right (by decide)).1
      (Nat.lt_of_mul_lt_mul_left (hmore.1.trans_lt hneed))
  | case2 size hdone =>
    subst hsize
    exact ⟨k, by rw [grow, if_neg hdone], fun _ hk => hk⟩

/-- From a size within the limit, the size stays within it exactly when what is needed does. -/
theorem grow_limit (need : ℕ) {k : ℕ} (hk : k ≤ 14) :
    (2097152 ≤ need ∧ maxWriteBufferSize < grow need (128 * 2 ^ k)) ∨
      ∃ j ≤ 14, need < 128 * 2 ^ j ∧ grow need (128 * 2 ^ k) = 128 * 2 ^ j := by
  obtain ⟨j, hj, hle⟩ := grow_pow need k
  have hlt : need < grow need (128 * 2 ^ k) := lt_grow (Nat.mul_pos (by decide) (Nat.two_pow_pos k))
  rw [hj] at hlt ⊢
  rcases Nat.lt_or_ge 14 j with hbig | hsmall
  · have h15 : 2 ^ 15 ≤ 2 ^ j := Nat.pow_le_pow_right (by decide) hbig
    refine .inl ⟨?_, by unfold maxWriteBufferSize; omega⟩
    by_contra hless
    have := hle (by omega) hk
    omega
  · exact .inr ⟨j, hsmall, hlt, rfl⟩

/-- One call at a nominal size within the limit: refused, or queued below such a size. -/
theorem queueIpcMessage_cases (buffer message : List UInt8) {k : ℕ} (hk : k ≤ 14) :
    (2097152 ≤ buffer.length + message.length ∧
        queueIpcMessage buffer (128 * 2 ^ k) message = none) ∨
      ∃ j ≤ 14, buffer.length + message.length < 128 * 2 ^ j ∧
        queueIpcMessage buffer (128 * 2 ^ k) message = some (buffer ++ message, 128 * 2 ^ j) := by
  unfold queueIpcMessage
  dsimp only
  rcases grow_limit (buffer.length + message.length) hk with ⟨hreach, hbig⟩ | ⟨j, hj, hlt, he⟩
  · exact .inl ⟨hreach, if_pos hbig⟩
  · have h14 : 2 ^ j ≤ 2 ^ 14 := Nat.pow_le_pow_right (by decide) hj
    rw [he, if_neg (by unfold maxWriteBufferSize; omega)]
    exact .inr ⟨j, hj, hlt, rfl⟩

/-- A nominal size past the limit refuses whatever comes. -/
theorem queueIpcMessage_of_lt {size : ℕ} (h : maxWriteBufferSize < size)
    (buffer message : List UInt8) : queueIpcMessage buffer size message = none :=
  if_pos (h.trans_le (le_grow _ _))

namespace WriteBuffer

/-- The nominal size tells whether a call has been refused. -/
def Sized (w : WriteBuffer) : Prop :=
  if w.dropped = true then maxWriteBufferSize < w.size else ∃ k ≤ 14, w.size = 128 * 2 ^ k

theorem Sized.step {w : WriteBuffer} (h : w.Sized) (s : WriteStep) : (w.step s).Sized := by
  cases s with
  | drain written => exact h
  | queue message =>
    unfold Sized at h
    rw [WriteBuffer.step]
    split at h
    · rename_i hdropped
      rw [queueIpcMessage_of_lt h]
      exact h.trans_le (le_grow _ _)
    rename_i hlive
    obtain ⟨k, hk, hsize⟩ := h
    rcases queueIpcMessage_cases w.bytes message hk with ⟨-, hnone⟩ | ⟨j, hj, -, hsome⟩
    · rw [hsize, hnone]
      -- the size the failing call leaves behind
      by_contra hsmall
      have hle : ¬ maxWriteBufferSize < grow (w.bytes.length + message.length) (128 * 2 ^ k) :=
        hsmall
      unfold queueIpcMessage at hnone
      dsimp only at hnone
      rw [if_neg hle] at hnone
      cases hnone
    · rw [hsize, hsome]
      unfold Sized
      rw [if_neg hlive]
      exact ⟨j, hj, rfl⟩

theorem sized_run (steps : List WriteStep) : (run steps).Sized := by
  induction steps using List.reverseRecOn with
  | nil => exact ⟨0, by decide, rfl⟩
  | append_singleton steps s ih =>
    unfold run at ih ⊢
    rw [foldl_concat]
    exact ih.step s

end WriteBuffer

/-- **The bound of the write buffer.** Until a call has failed, the next one fails exactly when
2 MiB are reached, whatever was queued and drained before; it then leaves the bytes alone, and
otherwise what is queued is below the nominal size, which is at most 2 MiB. From the first failing
call on every call fails, and none of them touches the bytes. -/
theorem queueIpcMessage_bound (steps : List WriteStep) (message : List UInt8) :
    let w := WriteBuffer.run steps
    let w' := w.step (.queue message)
    (w.dropped = false →
      (queueIpcMessage w.bytes w.size message = none ↔
        2097152 ≤ w.bytes.length + message.length) ∧
      (w'.dropped = true ↔ queueIpcMessage w.bytes w.size message = none) ∧
      (w'.dropped = true → w'.bytes = w.bytes) ∧
      (w'.dropped = false →
        w'.bytes = w.bytes ++ message ∧ w'.bytes.length < w'.size ∧ w'.size ≤ 2097152)) ∧
    (w.dropped = true →
      queueIpcMessage w.bytes w.size message = none ∧ w'.dropped = true ∧ w'.bytes = w.bytes) := by
  dsimp only
  have hsized := WriteBuffer.sized_run steps
  generalize WriteBuffer.run steps = w at hsized ⊢
  unfold WriteBuffer.Sized at hsized
  refine ⟨fun hlive => ?_, fun hdropped => ?_⟩
  · rw [if_neg (by simp [hlive])] at hsized
    obtain ⟨k, hk, hsize⟩ := hsized
    rcases queueIpcMessage_cases w.bytes message hk with ⟨hreach, hnone⟩ | ⟨j, hj, hlt, hsome⟩
    · simp [WriteBuffer.step, hsize, hnone, hreach]
    · have h14 : 2 ^ j ≤ 2 ^ 14 := Nat.pow_le_pow_right (by decide) hj
      have hle : 128 * 2 ^ j ≤ 2097152 := by omega
      simp [WriteBuffer.step, hsize, hsome, hlive, hlt.trans_le hle, hle, hlt]
  · rw [if_pos hdropped] at hsized
    simp [WriteBuffer.step, queueIpcMessage_of_lt hsized]

/-- After a burst that doubled the nominal size, and most of it drained. -/
theorem queueIpcMessage_bound_drained :
    let w := WriteBuffer.run [.queue (replicate 200 0), .drain 150]
    w.bytes.length = 50 ∧ w.size = 256 ∧
      (queueIpcMessage w.bytes w.size (replicate 2097101 1) = none ↔ 2097152 ≤ 50 + 2097101) ∧
      (queueIpcMessage w.bytes w.size (replicate 2097102 1) = none ↔ 2097152 ≤ 50 + 2097102) := by
  have key : ∀ burst : List UInt8, burst.length = 200 →
      WriteBuffer.run [.queue burst, .drain 150] = ⟨burst.drop 150, 256, false⟩ := by
    intro burst hlength
    have hgrow : grow 200 128 = 256 := by
      rw [grow, if_pos (by decide), grow, if_neg (by decide)]
    simp [WriteBuffer.run, WriteBuffer.step, queueIpcMessage, hgrow, hlength, maxWriteBufferSize]
  have hbound := fun n =>
    (queueIpcMessage_bound [.queue (replicate 200 0), .drain 150] (replicate n 1)).1
  rw [key _ length_replicate] at hbound ⊢
  have hrest : (drop 150 (replicate 200 (0 : UInt8))).length = 50 := by
    rw [length_drop, length_replicate]
  simp only [hrest, length_replicate] at hbound
  exact ⟨hrest, rfl, (hbound 2097101 trivial).1, (hbound 2097102 trivial).1⟩

/-- A refused call has doubled the nominal size past the limit: after it one byte is refused. -/
theorem queueIpcMessage_after_refusal : let w := WriteBuffer.run [.queue (replicate 3000000 0)]
    w.bytes = [] ∧ queueIpcMessage w.bytes w.size [0] = none := by
  have key : ∀ message : List UInt8, message.length = 3000000 →
      let w := WriteBuffer.run [.queue message]
      w.bytes = [] ∧ queueIpcMessage w.bytes w.size [0] = none := by
    intro message hlength
    have hbig : maxWriteBufferSize < grow 3000000 128 := by
      rcases grow_limit 3000000 (Nat.zero_le 14) with ⟨-, hbig⟩ | ⟨j, hj, hlt, -⟩
      · exact hbig
      · have h14 : 2 ^ j ≤ 2 ^ 14 := Nat.pow_le_pow_right (by decide) hj
        omega
    have hw : WriteBuffer.run [.queue message] = ⟨[], grow 3000000 128, true⟩ := by
      simp [WriteBuffer.run, WriteBuffer.step, queueIpcMessage, hbig, hlength]
    rw [hw]
    exact ⟨rfl, queueIpcMessage_of_lt hbig _ _⟩
  exact key _ length_replicate

namespace Connection

variable (c : Connection)

/-- Messages into the write buffer, one after the other; an error ends the connection. -/
def queueAll : List Message → Connection → Connection
  | [], c => c
  | m :: messages, c =>
    match queueIpcMessage c.writeBuffer c.writeBufferSize m.bytes with
    | some (buffer, size) =>
      queueAll messages
        { c with writeBuffer := buffer, writeBufferSize := size, log := c.log ++ [m] }
    | none => { c with stage := .closed }

/-! ## 5. Steps -/

/-- Bytes leave the socket for the server. -/
def consume (got : List UInt8) : Connection :=
  { c with incoming := c.incoming.drop got.length, received := c.received ++ got }

/-- `read.read(&mut header[header_filled..])` or a read inside `read_exact` -/
def read (n : ℕ) : Connection :=
  match c.stage with
  | .header filled _ =>
    let got := c.incoming.take (min n (headerSize - filled.length))
    { c.consume got with stage := .afterHeader (filled ++ got) }
  | .payload rawType len filled fits short =>
    let got := c.incoming.take (min n (len.toNat - filled.length))
    { c.consume got with
      stage := .afterPayload rawType len (filled ++ got) fits (by grind) }
  | _ => c

def answer (dispatched : List UInt8) : Connection :=
  match c.stage with
  | .answering r =>
    let (messages, requested) := answers fromSlice r dispatched
    match c.subscriptions with
    | none =>
      { c with
        stage := .writing
        subscriptions := requested
        writeBuffer := messages.flatMap bytes
        log := c.log ++ messages }
    | some subscriptions =>
      queueAll messages
        { c with
          stage := .idle
          subscriptions := some (subscriptions ++ requested.getD []) }
  | _ => c

def write (n : ℕ) : Connection :=
  let written :=
    { c with writeBuffer := c.writeBuffer.drop n, socket := c.socket ++ c.writeBuffer.take n }
  match c.stage with
  | .writing => if c.writeBuffer.drop n = [] then { written with stage := .idle } else written
  -- the select loop; in the first one nothing is to be written here
  | .header _ _ => written
  | _ => c

def popEvent (rendering : Rendering) : Connection :=
  match c.stage, c.subscriptions, c.queue with
  | .header _ _, some subscriptions, e :: queue =>
    match eventFrame subscriptions e rendering with
    | some none => { c with queue := queue, log := c.log ++ [.event e none] }
    | some (some frame) => queueAll [.event e (some frame)] { c with queue := queue }
    | none => { c with queue := queue, stage := .closed }
  | _, _, _ => c

/-- The task returns: the registration is dropped and both halves of the socket with it. -/
def close : Connection := { c with stage := .closed }

def step : StreamInput → Connection
  | .send bytes => { c with incoming := c.incoming ++ bytes }
  | .read n => c.read n
  | .hangUp =>
    match c.stage with
    | .header _ _ | .payload _ _ _ _ _ => c.close
    | _ => c
  | .answer dispatched => c.answer fromSlice dispatched
  | .write n => c.write n
  | .writeError =>
    match c.stage, c.subscriptions with
    | .header _ _, some _ | .writing, _ => c.close
    | _, _ => c
  | .enqueue e =>
    if c.subscriptions.isSome && !c.stage.isClosed && c.queue.length < queueCapacity then
      { c with queue := c.queue ++ [e], enqueued := c.enqueued ++ [e] }
    else c
  | .event rendering => c.popEvent rendering
  | .eventsClosed =>
    match c.stage, c.subscriptions, c.queue with
    | .header _ _, some _, [] => c.close
    | _, _, _ => c
  | .disconnect =>
    match c.stage, c.subscriptions with
    | .header _ _, some _ => c.close
    | _, _ => c

def run (actions : List StreamInput) : Connection :=
  actions.foldl (step fromSlice) c

end Connection

end Server

end Swayward.Ipc
