/-
How a server reads the packets of a client. The reading is MQTT's own, not translated from the source. A packet that
the client's constructors build is read as what it was built from; but a PUBLISH is read without its message, which is
not written, and a CONNECT is read if it has no will.
-/
import TokioMqtt.Client
import TokioMqtt.Backend.Frames
import TokioMqtt.Proto.Payloads

namespace TokioMqtt.Server

open Proto StreamParser FromPrimitive

/-! ## What is read -/

/-- A packet of a client, as a server understands it. -/
inductive ClientPacket where
  | connect (clean : Bool) (keepAlive : UInt16) (fields : ConnectFields)
  | publish (dup : Bool) (qos : QualityOfService) (retain : Bool) (topic : MqttString) (id : Option UInt16)
    (msg : Bytes)
  | ack (ty : PacketType) (id : UInt16)
  | subscribe (id : UInt16) (subs : List (MqttString × QualityOfService))
  | unsubscribe (id : UInt16) (unsubs : List MqttString)
  | pingReq
  | disconnect
  deriving DecidableEq

/-- A value that has to use up the bytes. -/
def readWhole {α : Type} (p : Parser UInt8 α) (body : Bytes) : Option α :=
  match p body with
  | .done [] a => some a
  | _ => none

def idField : Parser UInt8 UInt16 := mapOpt (take 2) getU16

/-- What a CONNECT begins with, and the fields that its flags announce. -/
structure ConnectParts where
  name : MqttString
  level : UInt8
  flags : ConnFlags
  keepAlive : UInt16
  fields : ConnectFields

def flagsField : Parser UInt8 ConnFlags := mapOpt (take 1) fun c => (getU8 c).bind Flags.fromBits

def connectParts : Parser UInt8 ConnectParts := do
  let name ← mqttString
  let level ← mapOpt (take 1) getU8
  let flags ← flagsField
  let keepAlive ← idField
  let fields ← connectFields
    ⟨flags.contains ConnFlags.willFlag, flags.contains ConnFlags.username, flags.contains ConnFlags.password⟩
  pure ⟨name, level, flags, keepAlive, fields⟩

/-- What a server of level 4 takes: without a will, the flags that describe one are unset. -/
def ConnectParts.checked (c : ConnectParts) : Option ClientPacket :=
  if c.name.str = "MQTT" ∧ c.level = 4 ∧
      (c.fields.will = none → c.flags.bits >>> 3 &&& 0b11 = 0 ∧ c.flags.contains ConnFlags.willRetain = false) then
    some (.connect (c.flags.contains ConnFlags.cleanSess) c.keepAlive c.fields)
  else none

def publishFields (qos : QualityOfService) : Parser UInt8 (MqttString × Option UInt16) := do
  let topic ← mqttString
  let id ← cond (decide (qos ≠ .qoS0)) idField
  pure (topic, id)

/-- What is left after the topic and the packet id is the message. -/
def readPublish (flags : UInt8) (body : Bytes) : Option ClientPacket :=
  match fromU8 (flags >>> 1 &&& 0b11) with
  | none => none
  | some qos =>
    match publishFields qos body with
    | .done msg (topic, id) => some (.publish (flags &&& 0b1000 != 0) qos (flags &&& 0b0001 != 0) topic id msg)
    | _ => none

/-- A packet id, and entries up to the end. -/
def readEntries {α : Type} (entry : Parser UInt8 α) (body : Bytes) : Option (UInt16 × List α) :=
  match idField body with
  | .done r id => (readAll entry r).map fun entries => (id, entries)
  | _ => none

/-- The flags that MQTT fixes for the type, PUBLISH apart. -/
def fixedFlags : PacketType → UInt8
  | .pubRel | .subscribe | .unsubscribe => 0b0010
  | _ => 0

def readBody (ty : PacketType) (body : Bytes) : Option ClientPacket :=
  match ty with
  | .connect => (readWhole connectParts body).bind ConnectParts.checked
  | .pubAck | .pubRec | .pubRel | .pubComp => (readWhole idField body).map (.ack ty)
  | .subscribe => (readEntries subEntry body).map fun x => .subscribe x.1 x.2
  | .unsubscribe => (readEntries mqttString body).map fun x => .unsubscribe x.1 x.2
  | .pingReq => if body = [] then some .pingReq else none
  | .disconnect => if body = [] then some .disconnect else none
  | _ => none

/-- A type, the flags beside it and a body. That ids are not zero and lists not empty is not checked. -/
def readControl (ty : PacketType) (flags : UInt8) (body : Bytes) : Option ClientPacket :=
  if ty = .publish then readPublish flags body
  else if flags = fixedFlags ty then readBody ty body
  else none

def reads (frame : Backend.Frame) : Option ClientPacket :=
  (fromU8 (frame.first >>> 4)).bind fun ty => readControl ty (frame.first &&& 0b1111) frame.body

/-! ## What the constructors build -/

/-- What a packet of the client's constructors says to a server. -/
inductive Says : MqttPacket → ClientPacket → Prop
  | connect (creds : Credentials MqttString) (clean : Bool) (keepAlive : UInt16) (id : Option MqttString) :
    Says (.connectPacket .v3_1_1 none creds clean keepAlive id)
      (.connect clean keepAlive ⟨id.getD ⟨"", by decide⟩, none, creds⟩)
  | publish (qos : QualityOfService) (retain : Bool) (topic : MqttString) (id : UInt16) (msg : Bytes) :
    Says (.publishPacket qos retain topic id msg)
      (.publish false qos retain topic (if qos = .qoS0 then none else some id) [])
  | pubAck (id : UInt16) : Says (.pubAckPacket id) (.ack .pubAck id)
  | pubRec (id : UInt16) : Says (.pubRecPacket id) (.ack .pubRec id)
  | pubRel (id : UInt16) : Says (.pubRelPacket id) (.ack .pubRel id)
  | pubComp (id : UInt16) : Says (.pubCompPacket id) (.ack .pubComp id)
  | subscribe (id : UInt16) (subs : List (MqttString × QualityOfService)) :
    Says (.subscribePacket id subs) (.subscribe id subs)
  | unsubscribe (id : UInt16) (unsubs : List MqttString) : Says (.unsubscribePacket id unsubs) (.unsubscribe id unsubs)
  | pingReq : Says .pingReqPacket .pingReq
  | disconnect : Says .disconnectPacket .disconnect

/-- They pass the client's own check. -/
theorem Says.validate {packet : MqttPacket} {view : ClientPacket} (h : Says packet view) :
    packet.validate = .ok () := by
  cases h <;> rfl

/-! ## Their bodies -/

theorem reads_idField (id : UInt16) : Reads idField (beU16Bytes id) id := by
  refine (Reads.take (beU16Bytes id)).mapOpt ?_
  have h := getU16_beU16Bytes id []
  rwa [List.append_nil] at h

theorem reads_flagsField (flags : ConnFlags) : Reads flagsField [flags.bits] flags :=
  (Reads.take [flags.bits]).mapOpt (Flags.fromBits_eq_some.2 rfl)

theorem readWhole_reads {α : Type} {p : Parser UInt8 α} {body : Bytes} {a : α} (h : Reads p body a) :
    readWhole p body = some a := by
  unfold readWhole
  rw [h.whole]

theorem readEntries_flatMap {α : Type} {entry : Parser UInt8 α} {f : α → Bytes} (hr : ∀ a, Reads entry (f a) a)
    (hne : ∀ a, f a ≠ []) (id : UInt16) (entries : List α) :
    readEntries entry (beU16Bytes id ++ entries.flatMap f) = some (id, entries) := by
  unfold readEntries
  rw [reads_idField id]
  simp only [readAll_flatMap hr hne, Option.map_some]

/-- A packet whose only header is its packet id. -/
theorem body_of_id (ty : PacketType) (flags : PacketFlags) (id : UInt16) (payload : Payload) :
    (MqttPacket.mk ty flags (Headers.new.set (PacketId.mk id)) payload).body = beU16Bytes id ++ payload.encode := by
  show List.flatten [beU16Bytes id] ++ payload.encode = _
  rw [List.flatten_singleton]

/-- The constructors set the flags that MQTT fixes. -/
theorem Says.readControl_eq {packet : MqttPacket} {view : ClientPacket} (h : Says packet view)
    (hty : packet.ty ≠ .publish) :
    readControl packet.ty packet.flags.bits packet.body = readBody packet.ty packet.body := by
  unfold readControl
  rw [if_neg hty, if_pos]
  cases h with
  | publish => exact absurd rfl hty
  | _ => rfl

theorem readBody_ack {ty : PacketType} (hty : ty = .pubAck ∨ ty = .pubRec ∨ ty = .pubRel ∨ ty = .pubComp)
    (flags : PacketFlags) (id : UInt16) : readBody ty (MqttPacket.idPacket ty flags id).body = some (.ack ty id) := by
  have hbody : (MqttPacket.idPacket ty flags id).body = beU16Bytes id := by
    rw [MqttPacket.idPacket, body_of_id]
    exact List.append_nil _
  have hread := readWhole_reads (reads_idField id)
  rw [hbody]
  rcases hty with rfl | rfl | rfl | rfl <;> exact congrArg (Option.map _) hread

/-- The flags of a CONNECT without a will announce the fields of its payload. -/
theorem reads_connectParts (creds : Credentials MqttString) (clean : Bool) (keepAlive : UInt16) (cid : MqttString) :
    Reads connectParts ((⟨"MQTT", by decide⟩ : MqttString).encode ++ ([4] ++
        ([(Client.connectFlags none creds clean).bits] ++
          (beU16Bytes keepAlive ++ (ConnectFields.encode ⟨cid, none, creds⟩ )))))
      ⟨⟨"MQTT", by decide⟩, 4, Client.connectFlags none creds clean, keepAlive, ⟨cid, none, creds⟩⟩ := by
  obtain ⟨hwill, -, -, huser, hpass, -⟩ := Client.connectFlags_noWill creds clean
  have hfields := reads_noWill cid creds
  have hlevel : Reads (mapOpt (take 1) getU8) [4] 4 := (Reads.take [4]).mapOpt rfl
  refine (reads_mqttString _).bind (hlevel.bind ((reads_flagsField _).bind ((reads_idField keepAlive).bind ?_)))
  rw [hwill, huser, hpass]
  exact hfields.bind_pure

theorem connectPacket_body (creds : Credentials MqttString) (clean : Bool) (keepAlive : UInt16)
    (id : Option MqttString) : (MqttPacket.connectPacket .v3_1_1 none creds clean keepAlive id).body =
      (⟨"MQTT", by decide⟩ : MqttString).encode ++ ([4] ++ ([(Client.connectFlags none creds clean).bits] ++
        (beU16Bytes keepAlive ++ ConnectFields.encode ⟨id.getD ⟨"", by decide⟩, none, creds⟩))) := by
  have hheaders : (MqttPacket.connectPacket .v3_1_1 none creds clean keepAlive id).encodeHeaders =
      [(⟨"MQTT", by decide⟩ : MqttString).encode, [4], [(Client.connectFlags none creds clean).bits],
        beU16Bytes keepAlive].flatten := by
    rcases creds with _ | ⟨user, _ | pass⟩ <;> rfl
  rw [MqttPacket.body, hheaders, Client.connectPacket_payload]
  simp [ConnectFields.encode]

/-- The flags of a PUBLISH say its quality of service and whether it is retained. -/
theorem publishPacket_flags_read (qos : QualityOfService) (retain : Bool) (topic : MqttString) (id : UInt16)
    (msg : Bytes) : let bits := (MqttPacket.publishPacket qos retain topic id msg).flags.bits
    fromU8 (bits >>> 1 &&& 0b11) = some qos ∧ (bits &&& 0b1000 != 0) = false ∧ (bits &&& 0b0001 != 0) = retain := by
  -- they depend on these two only
  have hflags : (MqttPacket.publishPacket qos retain topic id msg).flags =
      (MqttPacket.publishPacket qos retain ⟨"", by decide⟩ 0 []).flags := by cases qos <;> rfl
  rw [hflags]
  cases qos <;> cases retain <;> decide

/-- Topic and packet id are read back, and nothing is left for the message. -/
theorem readPublish_eq (qos : QualityOfService) (retain : Bool) (topic : MqttString) (id : UInt16) (msg : Bytes) :
    readPublish (MqttPacket.publishPacket qos retain topic id msg).flags.bits
        (MqttPacket.publishPacket qos retain topic id msg).body =
      some (.publish false qos retain topic (if qos = .qoS0 then none else some id) []) := by
  have hfields : Reads (publishFields qos) (topic.encode ++ if qos = .qoS0 then [] else beU16Bytes id)
      (topic, if qos = .qoS0 then none else some id) := by
    refine (reads_mqttString topic).bind ?_
    cases qos with
    | qoS0 => exact (Reads.cond_none idField).bind_pure
    | qoS1 | qoS2 => exact (Reads.cond_some (reads_idField id)).bind_pure
  obtain ⟨hqos, hdup, hretain⟩ := publishPacket_flags_read qos retain topic id msg
  unfold readPublish
  rw [MqttPacket.publishPacket_body, hqos]
  simp only [hfields.whole, hdup, hretain]

theorem Says.read {packet : MqttPacket} {view : ClientPacket} (h : Says packet view) :
    readControl packet.ty packet.flags.bits packet.body = some view := by
  have hbody := h.readControl_eq
  cases h with
  | connect creds clean keepAlive id =>
    obtain ⟨-, hqos, hretain, -, -, hclean⟩ := Client.connectFlags_noWill creds clean
    have hread := readWhole_reads (reads_connectParts creds clean keepAlive (id.getD ⟨"", by decide⟩))
    rw [← connectPacket_body] at hread
    refine (hbody (show PacketType.connect ≠ .publish by decide)).trans ((congrArg (Option.bind · _) hread).trans ?_)
    rw [Option.bind_some, ConnectParts.checked, if_pos ⟨rfl, rfl, fun _ => ⟨hqos, hretain⟩⟩, hclean]
  | publish qos retain topic id msg => exact readPublish_eq qos retain topic id msg
  | pubAck id => exact (hbody (show PacketType.pubAck ≠ .publish by decide)).trans (readBody_ack (.inl rfl) ..)
  | pubRec id => exact (hbody (show PacketType.pubRec ≠ .publish by decide)).trans (readBody_ack (.inr (.inl rfl)) ..)
  | pubRel id =>
    exact (hbody (show PacketType.pubRel ≠ .publish by decide)).trans (readBody_ack (.inr (.inr (.inl rfl))) ..)
  | pubComp id =>
    exact (hbody (show PacketType.pubComp ≠ .publish by decide)).trans (readBody_ack (.inr (.inr (.inr rfl))) ..)
  | subscribe id subs =>
    rw [hbody (show PacketType.subscribe ≠ .publish by decide), MqttPacket.subscribePacket, body_of_id]
    show (readEntries subEntry (beU16Bytes id ++ subs.flatMap _)).map _ = _
    rw [readEntries_flatMap reads_subEntry (by simp)]
    rfl
  | unsubscribe id unsubs =>
    rw [hbody (show PacketType.unsubscribe ≠ .publish by decide), MqttPacket.unsubscribePacket, body_of_id]
    show (readEntries mqttString (beU16Bytes id ++ unsubs.flatMap _)).map _ = _
    rw [readEntries_flatMap reads_mqttString MqttString.encode_ne_nil]
    rfl
  | pingReq | disconnect => rfl

/-- The frame of a packet is read as what the packet says. -/
theorem Says.reads_frame {packet : MqttPacket} {view : ClientPacket} (h : Says packet view) {frame : Backend.Frame}
    (hframe : Backend.FrameOf packet frame) : reads frame = some view := by
  unfold reads
  rw [hframe.nibbles.1, hframe.nibbles.2, fromU8_eq_some.2 rfl, Option.bind_some, hframe.body]
  exact h.read

end TokioMqtt.Server
