/-
# The inbound buffer of MQTT over AT (`at_mqtt.c`)

The AT driver puts messages into a ring of slots by `at_mqtt_input`, and `mal_mc_cycle` hands them
to the client.  With dynamic memory a slot is added behind the last one when the ring is full: it
comes last in the order of the ring only when that starts with slot 0, its memory is not cleared,
and when there is no memory for it the mutex stays locked.
-/
import Iotkit.GuardedRun
import Iotkit.RingBuffer
import Iotkit.InfraDefs

namespace Iotkit.AtMqtt

open GuardedRun RingBuffer List Function

/-! ## The buffer -/

/-- A build: `PLATFORM_HAS_DYNMEM`, `CONFIG_MQTT_TOPIC_MAXLEN`, `CONFIG_MQTT_MESSAGE_MAXLEN`. -/
structure AtMqttConfig where
  platformHasDynmem : Bool
  malMcMaxTopicLen : ℕ
  malMcMaxMsgLen : ℕ

def malMcDefaultBufferNum : ℕ := 1

variable (cfg : AtMqttConfig)

def AtMqttConfig.malMcMaxBufferNum : ℕ :=
  if cfg.platformHasDynmem then 14 else 1

/-- An `at_mqtt_msg_buff_t`; `bufferMutex` is whether its mutex is locked. -/
structure AtMqttMsgBuff where
  writeIndex : ℕ
  readIndex : ℕ
  lastWriteIndex : ℕ
  validFlag : ℕ → Bool
  bufferNum : ℕ
  topic : ℕ → Option Bytes
  msgData : ℕ → Option Bytes
  bufferMutex : Bool

def cleared (n : ℕ) : Bytes := List.replicate n 0

/-- `mal_mc_recv_buf_init`, when the mutex can be created. -/
def malMcRecvBufInit : AtMqttMsgBuff :=
  let static := if cfg.platformHasDynmem then malMcDefaultBufferNum else cfg.malMcMaxBufferNum
  { writeIndex := 0
    readIndex := 0
    lastWriteIndex := 0
    validFlag := fun _ => false
    bufferNum := malMcDefaultBufferNum
    topic := fun i => if i < static then some (cleared cfg.malMcMaxTopicLen) else none
    msgData := fun i => if i < static then some (cleared cfg.malMcMaxMsgLen) else none
    bufferMutex := false }

/-- A `struct at_mqtt_input`: the bytes behind its pointers, which may be null. -/
structure AtMqttInput where
  topic : Option Bytes
  message : Option Bytes

/-- The bytes of a topic and a message. -/
structure AtMqttMsg where
  topic : Bytes
  message : Bytes
  deriving DecidableEq

/-- The memory that `mal_malloc` returns for a topic and for a message, with what stands in
it. -/
structure MalMemory where
  topic : Option Memory
  message : Option Memory

/-- What a call returns, the buffer it leaves, and the slots it writes or reads; a call that
waits for the mutex for ever returns nothing. -/
structure InputResult where
  ret : Option ℤ
  mgr : AtMqttMsgBuff
  touched : List ℕ

/-- The message of a call whose arguments are accepted. -/
def checkInput : Option AtMqttInput → Option AtMqttMsg
  | some ⟨some topic, some message⟩ =>
    if topic.length = 0 ∨ message.length = 0 then none
    else if cfg.malMcMaxTopicLen ≤ topic.length ∨ cfg.malMcMaxMsgLen ≤ message.length then none
    else some ⟨topic, message⟩
  | _ => none

/-- `memcpy` to the start of a slot. -/
def copyInto (data slot : Bytes) : Bytes := data ++ slot.drop data.length

variable (mgr : AtMqttMsgBuff)

/-- The part of `at_mqtt_input` that adds a slot: whether there is one, and the buffer. -/
def increaseBuffer (memory : MalMemory) :
    Bool × AtMqttMsgBuff :=
  let num := mgr.bufferNum
  let mgr := { mgr with lastWriteIndex := mgr.writeIndex }
  if cfg.platformHasDynmem then
    match memory.topic, memory.message with
    | none, _ => (false, { mgr with topic := update mgr.topic num none })
    | some _, none =>
      (false,
        { mgr with
          topic := update mgr.topic num none
          msgData := update mgr.msgData num none })
    | some topic, some message =>
      (true,
        { mgr with
          topic :=
            update mgr.topic num (some ((List.range cfg.malMcMaxTopicLen).map topic))
          msgData :=
            update mgr.msgData num (some ((List.range cfg.malMcMaxMsgLen).map message))
          bufferNum := num + 1 })
  else
    -- here the slot behind the new one is cleared
    (true,
      { mgr with
        bufferNum := num + 1
        topic := update mgr.topic (num + 1) (some (cleared cfg.malMcMaxTopicLen))
        msgData := update mgr.msgData (num + 1) (some (cleared cfg.malMcMaxMsgLen)) })

/-- The slot that is set up for an increase. -/
def increasedSlot : ℕ :=
  if cfg.platformHasDynmem then mgr.bufferNum else mgr.bufferNum + 1

/-- The end of `at_mqtt_input`: the message is stored, and the place of the next one set. -/
def storeMessage (slot : ℕ) (msg : AtMqttMsg) : AtMqttMsgBuff :=
  let next := if slot + 1 ≥ mgr.bufferNum then 0 else slot + 1
  { mgr with
    topic := update mgr.topic slot ((mgr.topic slot).map (copyInto msg.topic))
    msgData := update mgr.msgData slot ((mgr.msgData slot).map (copyInto msg.message))
    validFlag := update mgr.validFlag slot true
    writeIndex := if mgr.lastWriteIndex ≠ 0 then mgr.lastWriteIndex else next }

def atMqttInput (memory : MalMemory) (param : Option AtMqttInput) : InputResult :=
  match checkInput cfg param with
  | none => ⟨some (-1), mgr, []⟩
  | some msg =>
    if mgr.bufferMutex then ⟨none, mgr, []⟩
    else if mgr.validFlag mgr.writeIndex = true ∧ mgr.bufferNum = cfg.malMcMaxBufferNum then
      ⟨some (-1), mgr, [mgr.writeIndex]⟩
    else if mgr.validFlag mgr.writeIndex = true then
      match increaseBuffer cfg mgr memory with
      -- the mutex is not unlocked on this way out
      | (false, grown) =>
        ⟨some (-1), { grown with bufferMutex := true },
          [mgr.writeIndex, increasedSlot cfg mgr]⟩
      | (true, grown) =>
        ⟨some 0, storeMessage grown mgr.bufferNum msg,
          [mgr.writeIndex, increasedSlot cfg mgr, mgr.bufferNum]⟩
    else
      ⟨some 0, storeMessage { mgr with lastWriteIndex := 0 } mgr.writeIndex msg,
        [mgr.writeIndex]⟩

/-! ## The cycle of the client -/

/-- `iotx_mc_state_t`. -/
inductive McState where
  | invalid
  | initialized
  | connected
  | disconnected
  | disconnectedReconnecting
  deriving DecidableEq

/-- The memory of a slot, as `iotx_mc_handle_recv_PUBLISH` gets it. -/
structure HandedSlot where
  topic : Bytes
  message : Bytes
  deriving DecidableEq

/-- What `mal_mc_cycle` returns and hands over, and what it leaves. -/
structure CycleResult where
  ret : Option ℤ
  client : McState
  mgr : AtMqttMsgBuff
  handed : Option HandedSlot
  touched : List ℕ

/-- The part of `mal_mc_cycle` that reads the buffer; `rc` is what the client returns. -/
def readBuffer (client : McState) (rc : ℤ) :
    CycleResult :=
  let slot := mgr.readIndex
  if mgr.bufferMutex then ⟨none, client, mgr, none, []⟩
  else if mgr.validFlag slot = false then ⟨some failReturn, client, mgr, none, [slot]⟩
  else
    { ret := some rc
      client := client
      mgr :=
        { mgr with
          topic := update mgr.topic slot (some (cleared cfg.malMcMaxTopicLen))
          msgData := update mgr.msgData slot (some (cleared cfg.malMcMaxMsgLen))
          validFlag := update mgr.validFlag slot false
          readIndex := if slot + 1 ≥ mgr.bufferNum then 0 else slot + 1 }
      handed :=
        match mgr.topic slot, mgr.msgData slot with
        | some topic, some message => some ⟨topic, message⟩
        | _, _ => none
      touched := [slot] }

/-- `mal_mc_cycle` of a client that is there; `hal` and `hal'` are what `HAL_AT_MQTT_State`
returns the first and the second time. -/
def malMcCycle (client hal hal' : McState) (rc : ℤ) :
    CycleResult :=
  let client := if hal = .connected then .connected else client
  if client ≠ .connected then ⟨some mqttStateError, client, mgr, none, []⟩
  else if hal' ≠ .connected then ⟨some mqttNetworkError, .disconnected, mgr, none, []⟩
  else readBuffer cfg mgr client rc

/-! ## Runs -/

/-- The buffer and the client, with the messages that were accepted, those that were handed over
and the slots that were touched. -/
structure AtMqttSession where
  mgr : AtMqttMsgBuff
  client : McState
  accepted : List AtMqttMsg
  handed : List HandedSlot
  touched : List ℕ

def atMqttStart : AtMqttSession :=
  ⟨malMcRecvBufInit cfg, .initialized, [], [], []⟩

inductive AtMqttOp where
  | input (memory : MalMemory) (param : Option AtMqttInput)
  | cycle (hal hal' : McState) (rc : ℤ)

def atMqttStep (s : AtMqttSession) : AtMqttOp → AtMqttSession
  | .input memory param =>
    let r := atMqttInput cfg s.mgr memory param
    { s with
      mgr := r.mgr
      accepted :=
        if r.ret = some 0 then s.accepted ++ (checkInput cfg param).toList else s.accepted
      touched := s.touched ++ r.touched }
  | .cycle hal hal' rc =>
    let r := malMcCycle cfg s.mgr s.client hal hal' rc
    { s with
      mgr := r.mgr
      client := r.client
      handed := s.handed ++ r.handed.toList
      touched := s.touched ++ r.touched }

def connectedCycle (rc : ℤ) : AtMqttOp := .cycle .connected .connected rc

/-! ## The buffer is a FIFO -/

/-- A message is handed over as its bytes with a terminator. -/
def HandedAs (msg : AtMqttMsg) (slot : HandedSlot) : Prop :=
  msg.topic ++ [0] <+: slot.topic ∧ msg.message ++ [0] <+: slot.message

instance (msg : AtMqttMsg) (slot : HandedSlot) : Decidable (HandedAs msg slot) :=
  inferInstanceAs (Decidable (_ ∧ _))

/-- What was accepted is handed over once each and in order: the rest by as many cycles as there are
others. The mutex is free, and indices and touched slots are inside the buffer. -/
structure BoundedFifo (cfg : AtMqttConfig) (s : AtMqttSession) : Prop where
  mutex : s.mgr.bufferMutex = false
  read_lt : s.mgr.readIndex < s.mgr.bufferNum
  write_lt : s.mgr.writeIndex < s.mgr.bufferNum
  num_le : s.mgr.bufferNum ≤ cfg.malMcMaxBufferNum
  touched : ∀ slot ∈ s.touched, slot < s.mgr.bufferNum
  handed : ∃ done, done <+: s.accepted ∧ List.Forall₂ HandedAs done s.handed
  drained : ∀ rcs : List ℤ, rcs.length = s.accepted.length - s.handed.length →
    List.Forall₂ HandedAs s.accepted
      ((rcs.map connectedCycle).foldl (atMqttStep cfg) s).handed

/-- A slot is added only while the buffer is read from slot 0, there is memory for it, and that
happens to be zero behind the topic and behind the message. -/
def GrowsInOrder (s : AtMqttSession) : AtMqttOp → Prop
  | .input memory param =>
    ∀ msg ∈ checkInput cfg param, s.mgr.validFlag s.mgr.writeIndex = true →
      s.mgr.bufferNum ≠ cfg.malMcMaxBufferNum →
        s.mgr.readIndex = 0 ∧ memory.topic.map (· msg.topic.length) = some 0 ∧
          memory.message.map (· msg.message.length) = some 0
  | .cycle _ _ _ => True

/-- The slot holds the message, with terminators. -/
def SlotHolds (j : ℕ) (msg : AtMqttMsg) : Prop :=
  mgr.validFlag j = true ∧ ∃ slot : HandedSlot,
    mgr.topic j = some slot.topic ∧ mgr.msgData j = some slot.message ∧ HandedAs msg slot

/-- The slot is free, and its memory is cleared. -/
def SlotFree (j : ℕ) : Prop :=
  mgr.validFlag j = false ∧ mgr.topic j = some (cleared cfg.malMcMaxTopicLen) ∧
    mgr.msgData j = some (cleared cfg.malMcMaxMsgLen)

/-- The slots are a ring of the messages that wait to be handed over. -/
structure FifoInv (cfg : AtMqttConfig) (s : AtMqttSession) (waiting : List AtMqttMsg) : Prop where
  ring : RingHolds (SlotHolds s.mgr) (SlotFree cfg s.mgr) s.mgr.bufferNum s.mgr.readIndex waiting
  write : s.mgr.writeIndex = (s.mgr.readIndex + waiting.length) % s.mgr.bufferNum
  mutex : s.mgr.bufferMutex = false
  num_le : s.mgr.bufferNum ≤ cfg.malMcMaxBufferNum
  touched : ∀ slot ∈ s.touched, slot < s.mgr.bufferNum
  handed : ∃ done, s.accepted = done ++ waiting ∧ List.Forall₂ HandedAs done s.handed

theorem next_eq_mod {slot num : ℕ} (h : slot < num) :
    (if slot + 1 ≥ num then 0 else slot + 1) = (slot + 1) % num := by
  split_ifs with hwrap
  · obtain rfl : slot + 1 = num := by omega
    exact (Nat.mod_self _).symm
  · exact (Nat.mod_eq_of_lt (by omega)).symm

theorem copyInto_terminated {data slot : Bytes} (h : slot[data.length]? = some 0) :
    data ++ [0] <+: copyInto data slot := by
  obtain ⟨hlt, hzero⟩ := List.getElem?_eq_some_iff.mp h
  refine ⟨slot.drop (data.length + 1), ?_⟩
  rw [copyInto, drop_eq_getElem_cons hlt, hzero]
  simp

theorem getElem?_cleared {n i : ℕ} (h : i < n) : (cleared n)[i]? = some 0 := by
  simp [cleared, h]

theorem checkInput_fits {cfg : AtMqttConfig} {param : Option AtMqttInput} {msg : AtMqttMsg}
    (h : checkInput cfg param = some msg) :
    msg.topic.length < cfg.malMcMaxTopicLen ∧ msg.message.length < cfg.malMcMaxMsgLen := by
  unfold checkInput at h
  split at h
  · split_ifs at h with hempty hlong
    obtain rfl := Option.some.inj h
    push Not at hlong
    exact hlong
  · contradiction

/-- A message that is stored stands in its slot, and the other slots keep what they hold. -/
theorem storeMessage_spec {slot : ℕ} (msg : AtMqttMsg) {topic message : Bytes}
    (htopic : mgr.topic slot = some topic) (hmessage : mgr.msgData slot = some message)
    (htopic' : topic[msg.topic.length]? = some 0)
    (hmessage' : message[msg.message.length]? = some 0) :
    SlotHolds (storeMessage mgr slot msg) slot msg ∧
      ∀ j, j ≠ slot →
        (∀ other, SlotHolds mgr j other → SlotHolds (storeMessage mgr slot msg) j other) ∧
          (SlotFree cfg mgr j → SlotFree cfg (storeMessage mgr slot msg) j) := by
  refine ⟨⟨by simp [storeMessage], ⟨copyInto msg.topic topic, copyInto msg.message message⟩,
    by simp [storeMessage, htopic], by simp [storeMessage, hmessage],
    copyInto_terminated htopic', copyInto_terminated hmessage'⟩, fun j hj => ⟨?_, ?_⟩⟩
  · rintro other ⟨hvalid, held, hold⟩
    exact ⟨by simpa [storeMessage, hj] using hvalid, held, by simpa [storeMessage, hj] using hold⟩
  · rintro ⟨hvalid, hfree⟩
    exact ⟨by simpa [storeMessage, hj] using hvalid, by simpa [storeMessage, hj] using hfree⟩

/-- With memory for it a slot is added, and the others keep what they hold. -/
theorem increaseBuffer_spec {cfg : AtMqttConfig} {memory : MalMemory} {topic message : Memory}
    (hdynmem : cfg.platformHasDynmem = true) (htopic : memory.topic = some topic)
    (hmessage : memory.message = some message) :
    ∃ grown, increaseBuffer cfg mgr memory = (true, grown) ∧
      grown.topic mgr.bufferNum = some ((List.range cfg.malMcMaxTopicLen).map topic) ∧
      grown.msgData mgr.bufferNum = some ((List.range cfg.malMcMaxMsgLen).map message) ∧
      RingHolds.Others (SlotHolds mgr) (SlotHolds grown) (SlotFree cfg mgr) (SlotFree cfg grown)
        mgr.bufferNum ∧
      grown.lastWriteIndex = mgr.writeIndex ∧ grown.readIndex = mgr.readIndex ∧
      grown.bufferNum = mgr.bufferNum + 1 ∧ grown.bufferMutex = mgr.bufferMutex := by
  have hgrown : increaseBuffer cfg mgr memory = (true,
      { mgr with
        lastWriteIndex := mgr.writeIndex
        topic := update mgr.topic mgr.bufferNum
          (some ((List.range cfg.malMcMaxTopicLen).map topic))
        msgData := update mgr.msgData mgr.bufferNum
          (some ((List.range cfg.malMcMaxMsgLen).map message))
        bufferNum := mgr.bufferNum + 1 }) := by
    simp only [increaseBuffer, hdynmem, htopic, hmessage, if_true]
  refine ⟨_, hgrown, update_self .., update_self .., fun j hj => ⟨?_, ?_⟩,
    rfl, rfl, rfl, rfl⟩
  · rintro other ⟨hflag, held, hold⟩
    exact ⟨hflag, held, by simpa [hj] using hold⟩
  · rintro ⟨hflag, hfree⟩
    exact ⟨hflag, by simpa [hj] using hfree⟩

namespace FifoInv

variable {cfg : AtMqttConfig} {s : AtMqttSession} {waiting : List AtMqttMsg}

theorem start (cfg : AtMqttConfig) : FifoInv cfg (atMqttStart cfg) [] := by
  have hmax : 1 ≤ cfg.malMcMaxBufferNum := by
    unfold AtMqttConfig.malMcMaxBufferNum
    split_ifs <;> omega
  have hzero : 0 < if cfg.platformHasDynmem = true then malMcDefaultBufferNum
      else cfg.malMcMaxBufferNum := by
    split_ifs
    · exact Nat.one_pos
    · exact hmax
  refine ⟨⟨Nat.one_pos, Nat.zero_le _, by simp, fun i _ hi => ?_⟩, rfl, rfl, hmax, by
    simp [atMqttStart], [], rfl, .nil⟩
  obtain rfl : i = 0 := Nat.lt_one_iff.mp hi
  exact ⟨rfl, if_pos hzero, if_pos hzero⟩

/-- The slot of the next message is free and cleared, or the ring is full and starts with it. -/
theorem writeSlot (h : FifoInv cfg s waiting) :
    (waiting.length < s.mgr.bufferNum ∧ SlotFree cfg s.mgr s.mgr.writeIndex) ∨
      (waiting.length = s.mgr.bufferNum ∧ s.mgr.writeIndex = s.mgr.readIndex ∧
        s.mgr.validFlag s.mgr.writeIndex = true) := by
  rcases h.ring.length_le.lt_or_eq with hroom | hfull
  · refine .inl ⟨hroom, ?_⟩
    rw [h.write]
    exact h.ring.free_at _ le_rfl hroom
  have hwrite : s.mgr.writeIndex = s.mgr.readIndex := by
    rw [h.write, hfull, Nat.add_mod_right, Nat.mod_eq_of_lt h.ring.start_lt]
  have hpos : 0 < waiting.length := by
    rw [hfull]
    exact Nat.zero_le _ |>.trans_lt h.ring.start_lt
  have hfirst := (h.ring.holds_at 0 hpos).1
  rw [RingHolds.place_zero h.ring.start_lt] at hfirst
  exact .inr ⟨hfull, hwrite, hwrite ▸ hfirst⟩

theorem write_lt (h : FifoInv cfg s waiting) : s.mgr.writeIndex < s.mgr.bufferNum := by
  rw [h.write]
  exact Nat.mod_lt _ (Nat.zero_le _ |>.trans_lt h.ring.start_lt)

variable {param : Option AtMqttInput} {msg : AtMqttMsg}

theorem accept (h : FifoInv cfg s waiting) (memory : MalMemory)
    (hmsg : checkInput cfg param = some msg) (hroom : waiting.length < s.mgr.bufferNum)
    (hfree : SlotFree cfg s.mgr s.mgr.writeIndex) :
    (atMqttInput cfg s.mgr memory param).ret = some 0 ∧
      FifoInv cfg (atMqttStep cfg s (.input memory param)) (waiting ++ [msg]) := by
  obtain ⟨htopic, hmessage⟩ := checkInput_fits hmsg
  have hinput : atMqttInput cfg s.mgr memory param =
      ⟨some 0, storeMessage { s.mgr with lastWriteIndex := 0 } s.mgr.writeIndex msg,
        [s.mgr.writeIndex]⟩ := by
    simp [atMqttInput, hmsg, h.mutex, hfree.1]
  obtain ⟨hstored, hothers⟩ := storeMessage_spec cfg { s.mgr with lastWriteIndex := 0 } msg
    hfree.2.1 hfree.2.2 (getElem?_cleared htopic) (getElem?_cleared hmessage)
  obtain ⟨done, haccepted, hdone⟩ := h.handed
  have hring := h.ring.push (x := msg) hroom (h.write ▸ hothers) (h.write ▸ hstored)
  refine ⟨by rw [hinput], ?_⟩
  rw [atMqttStep, hinput]
  refine ⟨by rw [h.write]; exact hring, ?_, h.mutex, h.num_le, ?_, done, ?_, hdone⟩
  · have hnext := next_eq_mod h.write_lt
    simp only [storeMessage, ne_eq, not_true_eq_false, if_false, hnext]
    rw [h.write, Nat.mod_add_mod, length_append, length_singleton, Nat.add_assoc]
  · exact forall_mem_append.mpr ⟨h.touched, forall_mem_singleton.mpr h.write_lt⟩
  · simp [hmsg, haccepted]

/-- A message that finds the ring full is accepted in a further slot, which comes last when the
ring starts with slot 0. -/
theorem increase (h : FifoInv cfg s waiting) {memory : MalMemory}
    (hmsg : checkInput cfg param = some msg) (hfull : waiting.length = s.mgr.bufferNum)
    (hwrite : s.mgr.writeIndex = s.mgr.readIndex) (hvalid : s.mgr.validFlag s.mgr.writeIndex = true)
    (hmax : s.mgr.bufferNum ≠ cfg.malMcMaxBufferNum) (hread : s.mgr.readIndex = 0)
    (htopic : memory.topic.map (· msg.topic.length) = some 0)
    (hmessage : memory.message.map (· msg.message.length) = some 0) :
    (atMqttInput cfg s.mgr memory param).ret = some 0 ∧
      FifoInv cfg (atMqttStep cfg s (.input memory param)) (waiting ++ [msg]) := by
  have hnum : 0 < s.mgr.bufferNum := Nat.zero_le _ |>.trans_lt h.ring.start_lt
  -- without dynamic memory the ring has one slot and does not grow
  have hdynmem : cfg.platformHasDynmem = true := by
    by_contra hstatic
    have hle := h.num_le
    unfold AtMqttConfig.malMcMaxBufferNum at hle hmax
    rw [if_neg hstatic] at hle hmax
    omega
  obtain ⟨topic, htopicMem, htopicZero⟩ := Option.map_eq_some_iff.mp htopic
  obtain ⟨message, hmessageMem, hmessageZero⟩ := Option.map_eq_some_iff.mp hmessage
  obtain ⟨hfitTopic, hfitMessage⟩ := checkInput_fits hmsg
  obtain ⟨grown, hgrown, htopicSlot, hmessageSlot, hothers, hlast, hreadIndex, hgrownNum, hmutex⟩ :=
    increaseBuffer_spec s.mgr hdynmem htopicMem hmessageMem
  have hinput : atMqttInput cfg s.mgr memory param =
      ⟨some 0, storeMessage grown s.mgr.bufferNum msg,
        [s.mgr.writeIndex, increasedSlot cfg s.mgr, s.mgr.bufferNum]⟩ := by
    simp [atMqttInput, hmsg, h.mutex, hvalid, hmax, hgrown]
  obtain ⟨hstored, hkept⟩ := storeMessage_spec cfg grown msg htopicSlot hmessageSlot
    (by simp [hfitTopic, htopicZero]) (by simp [hfitMessage, hmessageZero])
  obtain ⟨done, haccepted, hdone⟩ := h.handed
  have hring := (hread ▸ h.ring).grow (x := msg) hfull
    (fun j hj => ⟨fun other hold => (hkept j hj).1 other ((hothers j hj).1 other hold),
      fun hfree => (hkept j hj).2 ((hothers j hj).2 hfree)⟩) hstored
  refine ⟨by rw [hinput], ?_⟩
  rw [atMqttStep, hinput]
  have hnum' : (storeMessage grown s.mgr.bufferNum msg).bufferNum = s.mgr.bufferNum + 1 := hgrownNum
  have hread' : (storeMessage grown s.mgr.bufferNum msg).readIndex = 0 := hreadIndex.trans hread
  have hlast' : grown.lastWriteIndex = 0 := hlast.trans (hwrite.trans hread)
  refine ⟨?_, ?_, hmutex.trans h.mutex, ?_, ?_, done, ?_, hdone⟩
  · dsimp only
    rw [hnum', hread']
    exact hring
  · dsimp only
    rw [hnum', hread', length_append, length_singleton, hfull, Nat.zero_add, Nat.mod_self]
    simp [storeMessage, hlast', hgrownNum]
  · dsimp only
    rw [hnum']
    exact Nat.succ_le_of_lt (lt_of_le_of_ne h.num_le hmax)
  · intro slot hslot
    dsimp only
    rw [hnum']
    rcases mem_append.mp hslot with hold | hnew
    · exact (h.touched slot hold).trans (Nat.lt_succ_self _)
    · simp only [increasedSlot, hdynmem, if_true, mem_cons, not_mem_nil,
        or_false] at hnew
      omega
  · simp [hmsg, haccepted]

/-- A call is refused and changes nothing, or its message is the last one that waits. -/
theorem input (h : FifoInv cfg s waiting) {memory : MalMemory}
    (hok : GrowsInOrder cfg s (.input memory param)) :
    ((atMqttInput cfg s.mgr memory param).ret = some (-1) ∧
        (atMqttInput cfg s.mgr memory param).mgr = s.mgr ∧
        ∀ slot ∈ (atMqttInput cfg s.mgr memory param).touched, slot < s.mgr.bufferNum) ∨
      (atMqttInput cfg s.mgr memory param).ret = some 0 ∧
        ∃ msg, FifoInv cfg (atMqttStep cfg s (.input memory param)) (waiting ++ [msg]) := by
  cases hmsg : checkInput cfg param with
  | none => exact Or.inl (by simp [atMqttInput, hmsg])
  | some msg =>
    rcases h.writeSlot with ⟨hroom, hfree⟩ | ⟨hfull, hwrite, hvalid⟩
    · obtain ⟨hret, hinv⟩ := h.accept memory hmsg hroom hfree
      exact .inr ⟨hret, msg, hinv⟩
    by_cases hmax : s.mgr.bufferNum = cfg.malMcMaxBufferNum
    · have hinput : atMqttInput cfg s.mgr memory param =
          ⟨some (-1), s.mgr, [s.mgr.writeIndex]⟩ := by
        simp [atMqttInput, hmsg, h.mutex, hvalid, hmax]
      rw [hinput]
      exact Or.inl ⟨rfl, rfl, by simpa using h.write_lt⟩
    · obtain ⟨hread, htopic, hmessage⟩ := hok msg hmsg hvalid hmax
      obtain ⟨hret, hinv⟩ :=
        h.increase hmsg hfull hwrite hvalid hmax hread htopic hmessage
      exact .inr ⟨hret, msg, hinv⟩

theorem read_nil (h : FifoInv cfg s []) (client : McState) (rc : ℤ) :
    readBuffer cfg s.mgr client rc =
      ⟨some failReturn, client, s.mgr, none, [s.mgr.readIndex]⟩ := by
  have hfree := h.ring.free_at 0 le_rfl (Nat.zero_le _ |>.trans_lt h.ring.start_lt)
  rw [RingHolds.place_zero h.ring.start_lt] at hfree
  simp [readBuffer, h.mutex, hfree.1]

theorem read_cons (h : FifoInv cfg s (msg :: waiting)) (client : McState) (rc : ℤ) :
    FifoInv cfg
      { s with
        mgr := (readBuffer cfg s.mgr client rc).mgr
        client := (readBuffer cfg s.mgr client rc).client
        handed := s.handed ++ (readBuffer cfg s.mgr client rc).handed.toList
        touched := s.touched ++ (readBuffer cfg s.mgr client rc).touched } waiting := by
  have hlt := h.ring.start_lt
  -- the slot at the read index holds the first message
  obtain ⟨hvalid, held, htopic, hmessage, hheld⟩ := h.ring.holds_at 0 (Nat.succ_pos _)
  rw [RingHolds.place_zero hlt] at hvalid htopic hmessage
  have hnext := next_eq_mod hlt
  have hread : readBuffer cfg s.mgr client rc =
      { ret := some rc
        client := client
        mgr :=
          { s.mgr with
            topic := update s.mgr.topic s.mgr.readIndex
              (some (cleared cfg.malMcMaxTopicLen))
            msgData := update s.mgr.msgData s.mgr.readIndex
              (some (cleared cfg.malMcMaxMsgLen))
            validFlag := update s.mgr.validFlag s.mgr.readIndex false
            readIndex := (s.mgr.readIndex + 1) % s.mgr.bufferNum }
        handed := some held
        touched := [s.mgr.readIndex] } := by
    simp only [readBuffer, h.mutex, hvalid, htopic, hmessage, hnext, Bool.false_eq_true,
      Bool.true_eq_false, if_false]
  rw [hread]
  obtain ⟨done, haccepted, hdone⟩ := h.handed
  refine ⟨?_, ?_, h.mutex, h.num_le, ?_, done ++ [msg], ?_, ?_⟩
  · -- the other slots stay as they are, and this one becomes free
    refine h.ring.pop (fun j hj => ⟨?_, ?_⟩) ⟨?_, ?_, ?_⟩
    · rintro other ⟨hflag, slot, hslot⟩
      exact ⟨by simpa [hj] using hflag, slot, by simpa [hj] using hslot⟩
    · rintro ⟨hflag, hfree⟩
      exact ⟨by simpa [hj] using hflag, by simpa [hj] using hfree⟩
    · exact update_self ..
    · exact update_self ..
    · exact update_self ..
  · dsimp only
    rw [h.write, length_cons, Nat.mod_add_mod]
    congr 1
    omega
  · exact forall_mem_append.mpr ⟨h.touched, forall_mem_singleton.mpr hlt⟩
  · simp [haccepted]
  · exact rel_append hdone (.cons hheld .nil)

theorem cycle (h : FifoInv cfg s waiting) (hal hal' : McState) (rc : ℤ) :
    ∃ waiting', FifoInv cfg (atMqttStep cfg s (.cycle hal hal' rc)) waiting' := by
  rw [atMqttStep, malMcCycle]
  split_ifs
  all_goals try
    exact ⟨waiting, h.ring, h.write, h.mutex, h.num_le, by simpa using h.touched,
      by simpa using h.handed⟩
  all_goals
    cases waiting with
    | nil =>
      rw [h.read_nil]
      refine ⟨[], h.ring, h.write, h.mutex, h.num_le, ?_, by simpa using h.handed⟩
      exact forall_mem_append.mpr ⟨h.touched, forall_mem_singleton.mpr h.ring.start_lt⟩
    | cons msg waiting => exact ⟨waiting, h.read_cons _ rc⟩

/-- The slots are a ring of some messages. -/
def Ring (cfg : AtMqttConfig) (s : AtMqttSession) : Prop := ∃ waiting, FifoInv cfg s waiting

theorem Ring.step {s : AtMqttSession} (h : Ring cfg s) (op : AtMqttOp) (hok : GrowsInOrder cfg s op) :
    Ring cfg (atMqttStep cfg s op) := by
  obtain ⟨waiting, h⟩ := h
  cases op with
  | input memory param =>
    rcases h.input hok with ⟨hret, hmgr, htouched⟩ | ⟨-, msg, hinv⟩
    · refine ⟨waiting, ?_⟩
      rw [atMqttStep]
      rw [hret, hmgr]
      refine ⟨h.ring, h.write, h.mutex, h.num_le, ?_, by simpa using h.handed⟩
      exact forall_mem_append.mpr ⟨h.touched, htouched⟩
    · exact ⟨_, hinv⟩
  | cycle hal hal' rc => exact h.cycle hal hal' rc

theorem drained (h : FifoInv cfg s waiting) (rcs : List ℤ) (hlen : rcs.length = waiting.length) :
    List.Forall₂ HandedAs s.accepted
      ((rcs.map connectedCycle).foldl (atMqttStep cfg) s).handed := by
  induction rcs generalizing s waiting with
  | nil =>
    obtain ⟨done, haccepted, hdone⟩ := h.handed
    obtain rfl : waiting = [] := length_eq_zero_iff.mp hlen.symm
    simpa [haccepted] using hdone
  | cons rc rcs ih =>
    cases waiting with
    | nil => exact absurd hlen (Nat.succ_ne_zero _)
    | cons msg waiting => exact ih (h.read_cons .connected rc) (Nat.succ.inj hlen)

theorem boundedFifo (h : FifoInv cfg s waiting) : BoundedFifo cfg s := by
  obtain ⟨done, haccepted, hdone⟩ := h.handed
  refine ⟨h.mutex, h.ring.start_lt, h.write_lt, h.num_le, h.touched,
    ⟨done, ⟨waiting, haccepted.symm⟩, hdone⟩, fun rcs hlen => h.drained rcs ?_⟩
  rw [hlen, haccepted, length_append, hdone.length_eq, Nat.add_sub_cancel_left]

end FifoInv

/-- **The inbound buffer is a bounded FIFO.** In every run in which a slot is added only while slot
0 is read, and with a zero behind topic and message, what is accepted is handed over once each, in
order and with terminators, the mutex is free and the indices are in bounds after every call, and a
call that is refused changes nothing. -/
theorem at_mqtt_fifo (cfg : AtMqttConfig) (ops : List AtMqttOp)
    (hops : AllSteps (atMqttStep cfg) (GrowsInOrder cfg) (atMqttStart cfg) ops) :
    BoundedFifo cfg (ops.foldl (atMqttStep cfg) (atMqttStart cfg)) ∧
      ∀ memory param,
        GrowsInOrder cfg (ops.foldl (atMqttStep cfg) (atMqttStart cfg)) (.input memory param) →
        let mgr := (ops.foldl (atMqttStep cfg) (atMqttStart cfg)).mgr
        (atMqttInput cfg mgr memory param).ret = some (-1) →
          (atMqttInput cfg mgr memory param).mgr = mgr := by
  have hstart : FifoInv.Ring cfg (atMqttStart cfg) := ⟨[], FifoInv.start cfg⟩
  have hstep : ∀ s op, FifoInv.Ring cfg s → GrowsInOrder cfg s op →
      FifoInv.Ring cfg (atMqttStep cfg s op) := fun s op h hok => h.step op hok
  have hring := inv_of_allSteps hstep ops hstart hops
  obtain ⟨waiting, hinv⟩ := hring
  refine ⟨hinv.boundedFifo, fun memory param hok hrefused => ?_⟩
  rcases hinv.input hok with ⟨-, hmgr, -⟩ | ⟨haccepted, -⟩
  · exact hmgr
  · rw [haccepted] at hrefused
    exact absurd (Option.some.inj hrefused) (by decide)

/-- The message `m` to the topic `t`. -/
def inputOf (memory : MalMemory) (t m : UInt8) : AtMqttOp := .input memory (some ⟨some [t], some [m]⟩)

/-- Memory for a slot that holds one byte everywhere. -/
def memoryOf (byte : UInt8) : MalMemory := ⟨some fun _ => byte, some fun _ => byte⟩

/-- Two slots are added, the ring wraps around, and a message is refused in an empty call. -/
theorem at_mqtt_fifo_wrapped :
    let cfg : AtMqttConfig := ⟨true, 128, 1024⟩
    let ops : List AtMqttOp :=
      [inputOf (memoryOf 0) 1 11, inputOf (memoryOf 0) 2 12, inputOf (memoryOf 0) 3 13,
        connectedCycle 0, inputOf (memoryOf 0) 4 14, connectedCycle 0, .input (memoryOf 0) none]
    let s := ops.foldl (atMqttStep cfg) (atMqttStart cfg)
    s.mgr.bufferNum = 3 ∧ s.mgr.readIndex = 2 ∧ s.mgr.writeIndex = 1 ∧ BoundedFifo cfg s := by
  intro cfg ops s
  refine ⟨by decide +kernel, by decide +kernel, by decide +kernel, ?_⟩
  refine (at_mqtt_fifo cfg ops ⟨?_, ?_, ?_, trivial, ?_, trivial, ?_, trivial⟩).1
  · intro msg _ hvalid
    exact absurd hvalid (by decide +kernel)
  · rintro _ ⟨⟩ _ _
    exact ⟨by decide +kernel, rfl, rfl⟩
  · rintro _ ⟨⟩ _ _
    exact ⟨by decide +kernel, rfl, rfl⟩
  · rintro _ ⟨⟩ hvalid _
    exact absurd hvalid (by decide +kernel)
  · rintro _ ⟨⟩

/-- The third message comes into slot 0 while slot 1 is read, and the fourth, behind it, is read
first; a slot without zeros hands over a topic that does not end; and without memory for a slot the
mutex stays locked. -/
theorem at_mqtt_fifo_broken :
    let cfg : AtMqttConfig := ⟨true, 128, 1024⟩
    (let ops : List AtMqttOp :=
      [inputOf (memoryOf 0) 1 11, inputOf (memoryOf 0) 2 12, connectedCycle 0,
        inputOf (memoryOf 0) 3 13, inputOf (memoryOf 0) 4 14]
     ¬ BoundedFifo cfg (ops.foldl (atMqttStep cfg) (atMqttStart cfg))) ∧
    (let ops : List AtMqttOp := [inputOf (memoryOf 0) 1 11, inputOf (memoryOf 0x78) 2 12]
     ¬ BoundedFifo cfg (ops.foldl (atMqttStep cfg) (atMqttStart cfg))) ∧
    (let ops : List AtMqttOp := [inputOf (memoryOf 0) 1 11, inputOf ⟨none, none⟩ 2 12]
     let s := ops.foldl (atMqttStep cfg) (atMqttStart cfg)
     ¬ BoundedFifo cfg s ∧ (readBuffer cfg s.mgr .connected 0).ret = none) := by
  intro cfg
  refine ⟨?_, ?_, ?_⟩
  · intro ops h
    exact absurd (h.drained [0, 0, 0] (by decide +kernel)) (by decide +kernel)
  · intro ops h
    exact absurd (h.drained [0, 0] (by decide +kernel)) (by decide +kernel)
  · refine ⟨fun h => absurd h.mutex (by decide +kernel), by decide +kernel⟩

end Iotkit.AtMqtt
