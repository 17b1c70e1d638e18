import TMEdge.Library.Run

/-!
# Frames of a cluster terminal

The model of `TermSender` over `TermChannel.seal` (`shared/hpcterm.ts`). Both work through a chain
of promises: a seal is encrypted when the seals before it have come to their end, and a frame goes
out when the calls before it have and its own seal has come back. Any of these continuations may be
the next to run. The socket is open from the call of `open` on, and encryption does not fail.

* `Sending`: the frames that are out or held are the first ones, in order.
* `frames_in_order`: in every run.
-/

namespace TMEdge.Hpc

open Library List

/-! ## The channel -/

structure TermMessage where
  type : UInt8
  payload : List UInt8
  deriving DecidableEq

structure Frame where
  dir : UInt8
  counter : Nat
  ciphertext : List UInt8
  deriving DecidableEq

def dirC2s : UInt8 := 1

structure TermChannel where
  sendCount : Nat := 0
  /-- The seals on the chain behind the one that is encrypted, with their counters. -/
  waiting : List (Nat × TermMessage) := []
  encrypting : Option (Nat × TermMessage) := none
  /-- The frames that have come back, by their calls. -/
  frames : List Frame := []

/-- A continuation on the sender's chain: a frame goes out, or the socket has opened. -/
inductive Task
  | frame (call : Nat)
  | opened
  deriving DecidableEq

def Task.call? : Task → Option Nat
  | .frame call => some call
  | .opened => none

structure TermSender where
  channel : TermChannel := {}
  chain : List Task := []
  queue : List Frame := []
  socket : Bool := false
  /-- What the socket was handed. -/
  sent : List Frame := []

section

variable (encrypt : Nat → TermMessage → List UInt8)

/-- The frame of a message: the nonce says the direction and the counter. -/
def frameOf (m : Nat × TermMessage) : Frame := ⟨dirC2s, m.1, encrypt m.1 m.2⟩

namespace TermSender

variable (s : TermSender)

/-- `send`: the counter is spent at once. -/
def send (m : TermMessage) : TermSender :=
  { s with
    channel := { s.channel with
      sendCount := s.channel.sendCount + 1
      waiting := s.channel.waiting ++ [(s.channel.sendCount, m)] }
    chain := s.chain ++ [.frame s.channel.sendCount] }

def open_ : TermSender := { s with chain := s.chain ++ [.opened] }

/-- The next seal begins. -/
def encrypt_ : TermSender :=
  match s.channel.encrypting, s.channel.waiting with
  | none, m :: waiting =>
    { s with channel := { s.channel with encrypting := some m, waiting } }
  | _, _ => s

def encrypted : TermSender :=
  match s.channel.encrypting with
  | some m =>
    { s with
      channel := { s.channel with
        encrypting := none, frames := s.channel.frames ++ [frameOf encrypt m] } }
  | none => s

/-- The next continuation of the sender's chain, if what it waits for has come. -/
def advance : TermSender :=
  match s.chain with
  | .frame call :: chain =>
    match s.channel.frames[call]? with
    | some frame =>
      if s.socket then { s with chain, sent := s.sent ++ [frame] }
      else { s with chain, queue := s.queue ++ [frame] }
    | none => s
  | .opened :: chain => { s with chain, socket := true, sent := s.sent ++ s.queue, queue := [] }
  | [] => s

/-- Every promise that was returned has settled. -/
def Settled : Prop :=
  s.channel.waiting = [] ∧ s.channel.encrypting = none ∧ s.chain = []

end TermSender

inductive TermEvent
  | send (m : TermMessage)
  | open_
  | encrypt
  | encrypted
  | advance
  deriving DecidableEq

def senderStep (s : TermSender) : TermEvent → TermSender
  | .send m => s.send m
  | .open_ => s.open_
  | .encrypt => s.encrypt_
  | .encrypted => s.encrypted encrypt
  | .advance => s.advance

end

/-- A receiver that takes only the frame that is next, as `TermChannel.open` does. -/
def receive (expected : Nat) (frame : Frame) : Option Nat :=
  if frame.dir = dirC2s ∧ frame.counter = expected then some (expected + 1) else none

/-! ## What is on the way -/

def TermEvent.message? : TermEvent → Option TermMessage
  | .send m => some m
  | _ => none

/-- The messages of a run. -/
def messages (es : List TermEvent) : List TermMessage := es.filterMap TermEvent.message?

/-- The frames of messages, in the order of their calls. -/
def framesOf (encrypt : Nat → TermMessage → List UInt8) (ms : List TermMessage) : List Frame :=
  ms.mapIdx fun n m => frameOf encrypt (n, m)

/-- How far the messages `ms` have come. -/
structure Sending (encrypt : Nat → TermMessage → List UInt8) (ms : List TermMessage)
    (s : TermSender) : Prop where
  count : s.channel.sendCount = ms.length
  sealed : s.channel.frames ++
    (s.channel.encrypting.toList ++ s.channel.waiting).map (frameOf encrypt) = framesOf encrypt ms
  done : s.sent ++ s.queue <+: framesOf encrypt ms
  /-- The calls on the chain are those whose frames are neither out nor held. -/
  rest : s.chain.filterMap Task.call? =
    List.range' (s.sent ++ s.queue).length (ms.length - (s.sent ++ s.queue).length)
  held : s.socket = true → s.queue = []

section

variable {encrypt : Nat → TermMessage → List UInt8} {ms : List TermMessage} {s : TermSender}

@[simp] theorem length_framesOf : (framesOf encrypt ms).length = ms.length := by
  simp [framesOf]

theorem framesOf_concat (ms : List TermMessage) (m : TermMessage) :
    framesOf encrypt (ms ++ [m]) = framesOf encrypt ms ++ [frameOf encrypt (ms.length, m)] := by
  simp [framesOf, mapIdx_append]

theorem Sending.le (h : Sending encrypt ms s) : (s.sent ++ s.queue).length ≤ ms.length := by
  simpa using h.done.length_le

theorem Sending.send (h : Sending encrypt ms s) (m : TermMessage) :
    Sending encrypt (ms ++ [m]) (s.send m) := by
  refine ⟨?_, ?_, ?_, ?_, h.held⟩
  · simp [TermSender.send, h.count]
  · rw [framesOf_concat, ← h.sealed]
    simp [TermSender.send, h.count]
  · rw [framesOf_concat]
    exact h.done.trans (prefix_append _ _)
  · have hLe := h.le
    have hMore : (ms ++ [m]).length - (s.sent ++ s.queue).length =
        ms.length - (s.sent ++ s.queue).length + 1 := by
      rw [length_append, length_singleton]
      omega
    change (s.chain ++ [Task.frame s.channel.sendCount]).filterMap Task.call? = _
    rw [filterMap_append, h.rest, h.count]
    change List.range' (s.sent ++ s.queue).length _ ++ [ms.length] =
      List.range' (s.sent ++ s.queue).length ((ms ++ [m]).length - (s.sent ++ s.queue).length)
    rw [hMore, List.range'_concat]
    congr 2
    omega

theorem Sending.open_ (h : Sending encrypt ms s) : Sending encrypt ms s.open_ :=
  { h with
    rest := by
      change (s.chain ++ [Task.opened]).filterMap Task.call? = _
      rw [filterMap_append, filterMap_cons_none rfl, filterMap_nil, append_nil]
      exact h.rest }

theorem Sending.encrypt_ (h : Sending encrypt ms s) : Sending encrypt ms s.encrypt_ := by
  unfold TermSender.encrypt_
  split
  · rename_i m waiting hNone hWaiting
    refine { h with sealed := ?_ }
    have hSealed := h.sealed
    rw [hNone, hWaiting] at hSealed
    simpa using hSealed
  · exact h

theorem Sending.encrypted (h : Sending encrypt ms s) :
    Sending encrypt ms (s.encrypted encrypt) := by
  unfold TermSender.encrypted
  split
  · rename_i m hSome
    refine { h with sealed := ?_ }
    have hSealed := h.sealed
    rw [hSome] at hSealed
    simpa using hSealed
  · exact h

/-- The frame that goes out next is the one that is due. -/
theorem Sending.due (h : Sending encrypt ms s) {call : Nat} {chain : List Task} {frame : Frame}
    (hChain : s.chain = .frame call :: chain) (hFrame : s.channel.frames[call]? = some frame) :
    s.sent ++ s.queue ++ [frame] <+: framesOf encrypt ms ∧
      chain.filterMap Task.call? = List.range' ((s.sent ++ s.queue).length + 1)
        (ms.length - ((s.sent ++ s.queue).length + 1)) := by
  have hRest := h.rest
  rw [hChain, filterMap_cons] at hRest
  obtain ⟨n, hn⟩ : ∃ n, ms.length - (s.sent ++ s.queue).length = n + 1 := by
    rcases hEq : ms.length - (s.sent ++ s.queue).length with - | n
    · rw [hEq] at hRest
      exact nomatch hRest
    · exact ⟨n, rfl⟩
  rw [hn, List.range'_succ] at hRest
  obtain ⟨rfl, hTail⟩ := List.cons.inj hRest
  constructor
  · obtain ⟨rest, hPrefix⟩ := h.done
    have hGet : (framesOf encrypt ms)[(s.sent ++ s.queue).length]? = some frame := by
      rw [← h.sealed, getElem?_append_left (List.getElem?_eq_some_iff.mp hFrame).1]
      exact hFrame
    rw [← hPrefix, getElem?_append_right le_rfl, Nat.sub_self] at hGet
    obtain ⟨tail, rfl⟩ : ∃ tail, rest = frame :: tail := by
      cases rest with
      | nil => exact nomatch hGet
      | cons f tail => exact ⟨tail, by rw [Option.some.inj hGet]⟩
    exact ⟨tail, by rw [← hPrefix]; simp⟩
  · rw [hTail]
    congr 1
    omega

theorem Sending.advance (h : Sending encrypt ms s) : Sending encrypt ms s.advance := by
  unfold TermSender.advance
  split
  · rename_i call chain hChain
    split
    · rename_i frame hFrame
      obtain ⟨hDone, hRest⟩ := h.due hChain hFrame
      split
      · -- nothing is held any more
        rename_i hSocket
        have hQueue := h.held hSocket
        refine { h with done := ?_, rest := ?_ }
        · simpa [hQueue] using hDone
        · simpa [hQueue] using hRest
      · rename_i hSocket
        refine { h with done := ?_, rest := ?_, held := fun hOpen => absurd hOpen hSocket }
        · simpa [append_assoc] using hDone
        · simpa [append_assoc, Nat.add_assoc] using hRest
    · exact h
  · rename_i chain hChain
    have hRest := h.rest
    rw [hChain, filterMap_cons_none rfl] at hRest
    refine { h with done := ?_, rest := ?_, held := fun _ => rfl }
    · simpa using h.done
    · simpa using hRest
  · exact h

theorem sending_step (h : Sending encrypt ms s) (e : TermEvent) :
    Sending encrypt (ms ++ messages [e]) (senderStep encrypt s e) := by
  cases e with
  | send m => exact h.send m
  | open_ => exact (append_nil ms).symm ▸ h.open_
  | encrypt => exact (append_nil ms).symm ▸ h.encrypt_
  | encrypted => exact (append_nil ms).symm ▸ h.encrypted
  | advance => exact (append_nil ms).symm ▸ h.advance

theorem messages_concat (es : List TermEvent) (e : TermEvent) :
    messages (es ++ [e]) = messages es ++ messages [e] := filterMap_append

theorem sending_run (es : List TermEvent) :
    Sending encrypt (messages es) (run (senderStep encrypt) {} es) := by
  induction es using List.reverseRecOn with
  | nil => exact ⟨rfl, rfl, nil_prefix, rfl, fun _ => rfl⟩
  | append_singleton es e ih =>
    rw [run_concat, messages_concat]
    exact sending_step ih e

/-- The socket's opening is on the chain until it has happened. -/
theorem opened_step (h : s.socket = true ∨ .opened ∈ s.chain) (e : TermEvent) :
    (senderStep encrypt s e).socket = true ∨ .opened ∈ (senderStep encrypt s e).chain := by
  cases e with
  | send m => exact h.imp_right fun hMem => mem_append_left _ hMem
  | open_ => exact h.imp_right fun hMem => mem_append_left _ hMem
  | encrypt =>
    unfold senderStep TermSender.encrypt_
    dsimp only
    split <;> exact h
  | encrypted =>
    unfold senderStep TermSender.encrypted
    dsimp only
    split <;> exact h
  | advance =>
    unfold senderStep TermSender.advance
    dsimp only
    split
    · rename_i call chain hChain
      have hLater : s.socket = true ∨ .opened ∈ chain := by
        rw [hChain] at h
        simpa using h
      split
      · split <;> exact hLater
      · exact h
    · exact .inl rfl
    · exact h

theorem opened_run {es : List TermEvent} (h : .open_ ∈ es) :
    (run (senderStep encrypt) {} es).socket = true ∨
      .opened ∈ (run (senderStep encrypt) {} es).chain := by
  induction es using List.reverseRecOn with
  | nil => exact nomatch h
  | append_singleton es e ih =>
    rw [run_concat]
    rcases mem_append.mp h with hEarlier | hLast
    · exact opened_step (ih hEarlier) e
    · obtain rfl := mem_singleton.mp hLast
      exact .inr (mem_append_right _ mem_cons_self)

theorem counters_framesOf (ms : List TermMessage) :
    (framesOf encrypt ms).map Frame.counter = List.range ms.length := by
  induction ms using List.reverseRecOn with
  | nil => rfl
  | append_singleton ms m ih =>
    rw [framesOf_concat, map_append, ih, length_append, length_singleton,
      range_succ]
    rfl

/-- The receiver takes every frame of the first ones, in their order. -/
theorem receive_prefix {frames : List Frame} (h : frames <+: framesOf encrypt ms) :
    frames.foldlM receive 0 = some frames.length := by
  induction frames using List.reverseRecOn with
  | nil => rfl
  | append_singleton frames frame ih =>
    have hEarlier : frames <+: framesOf encrypt ms := (prefix_append _ _).trans h
    have hGet : (framesOf encrypt ms)[frames.length]? = some frame := by
      obtain ⟨rest, hRest⟩ := h
      rw [← hRest]
      simp
    obtain ⟨m, -, rfl⟩ : ∃ m, ms[frames.length]? = some m ∧
        frameOf encrypt (frames.length, m) = frame := by
      simpa [framesOf] using hGet
    rw [foldlM_append, ih hEarlier]
    simp [receive, frameOf]

end

/-- At every moment the socket was handed the first frames, in the order of their calls; all of them
once every promise has settled; and a receiver that takes only the next frame takes them. -/
theorem frames_in_order (encrypt : Nat → TermMessage → List UInt8) (es : List TermEvent) :
    ((run (senderStep encrypt) {} es).sent <+: framesOf encrypt (messages es)) ∧
    (run (senderStep encrypt) {} es).sent.map Frame.counter =
      List.range (run (senderStep encrypt) {} es).sent.length ∧
    (.open_ ∈ es → (run (senderStep encrypt) {} es).Settled →
      (run (senderStep encrypt) {} es).sent = framesOf encrypt (messages es) ∧
      (run (senderStep encrypt) {} es).sent.length = (messages es).length) ∧
    (run (senderStep encrypt) {} es).sent.foldlM receive 0 =
      some (run (senderStep encrypt) {} es).sent.length := by
  have hSending : Sending encrypt (messages es) (run (senderStep encrypt) {} es) :=
    sending_run es
  have hSent : (run (senderStep encrypt) {} es).sent <+: framesOf encrypt (messages es) :=
    (List.prefix_append _ _).trans hSending.done
  refine ⟨hSent, ?_, fun hOpen ⟨hWaiting, hEncrypting, hChain⟩ => ?_, receive_prefix hSent⟩
  · have hCounters := hSent.map Frame.counter
    rw [counters_framesOf] at hCounters
    have hTake := List.prefix_iff_eq_take.mp hCounters
    rw [List.take_range, List.length_map] at hTake
    rw [hTake]
    congr 1
    have hLe := hSent.length_le
    rw [length_framesOf] at hLe
    exact min_eq_left hLe
  · -- the chain has come to its end, so nothing is held and nothing is due
    have hSocket : (run (senderStep encrypt) {} es).socket = true := by
      rcases opened_run hOpen with hSocket | hLater
      · exact hSocket
      · rw [hChain] at hLater
        exact nomatch hLater
    have hQueue := hSending.held hSocket
    have hRest := hSending.rest
    have hLe := hSending.le
    rw [hChain, hQueue, List.append_nil] at hRest
    rw [hQueue, List.append_nil] at hLe
    have hNone : (messages es).length - (run (senderStep encrypt) {} es).sent.length = 0 := by
      have hLength := congrArg List.length hRest
      rw [List.length_range'] at hLength
      exact hLength.symm
    have hAll : (run (senderStep encrypt) {} es).sent.length = (messages es).length := by omega
    exact ⟨hSent.eq_of_length (by rw [hAll, length_framesOf]), hAll⟩

/-- A resize goes before the socket is open, and a keystroke behind it. -/
def resizeAndType : List TermEvent :=
  [.send ⟨1, []⟩, .encrypt, .open_, .send ⟨0, [97]⟩, .encrypted, .advance, .advance, .encrypt,
    .encrypted, .advance]

theorem frames_in_order_resize :
    (run (senderStep fun n _ => [n.toUInt8]) {} resizeAndType).sent =
      [⟨1, 0, [0]⟩, ⟨1, 1, [1]⟩] :=
  ((frames_in_order (fun n _ => [n.toUInt8]) resizeAndType).2.2.1 (by decide)
    ⟨by decide, by decide, by decide⟩).1

end TMEdge.Hpc
