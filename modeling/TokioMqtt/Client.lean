/-
The client's configuration and the CONNECT that `Client::connect` makes of it. The flags of that
CONNECT describe it when there is no will; with a will they never do, since `encode_flags` neither
sets `WILL_FLAG` nor shifts the quality of service. The builder's validation asks for a client id
with a clean session, so the sessions that need one can go without.
-/
import TokioMqtt.Backend.Machine

namespace TokioMqtt.Client

open Proto

/-! ## Configuration -/

structure Config where
  connectTimeout : Nat
  pingTimeout : Nat
  keepAlive : UInt16
  version : ProtoLvl
  lwt : Option (String × QualityOfService × Bool × Bytes)
  credentials : Credentials String
  clean : Bool
  clientId : Option String
  deriving DecidableEq

/-- What has been set of a `Config`. -/
structure ConfigBuilder where
  connectTimeout : Option Nat := none
  pingTimeout : Option Nat := none
  keepAlive : Option UInt16 := none
  version : Option ProtoLvl := none
  lwt : Option (Option (String × QualityOfService × Bool × Bytes)) := none
  credentials : Option (Credentials String) := none
  clean : Option Bool := none
  clientId : Option (Option String) := none

namespace ConfigBuilder

/-- `validate` reads `self.clean` as a `bool`; it is taken for the value that will be built. -/
def validate (self : ConfigBuilder) : Except String Unit :=
  if self.clean.getD true && self.clientId.isNone then .error "Please specify a client ID for a non-clean session"
  else .ok ()

def build (self : ConfigBuilder) : Except String Config :=
  match self.validate with
  | .error e => .error e
  | .ok () => .ok
    { connectTimeout := self.connectTimeout.getD 30
      pingTimeout := self.pingTimeout.getD 10
      keepAlive := self.keepAlive.getD 0
      version := self.version.getD .v3_1_1
      lwt := self.lwt.getD none
      credentials := self.credentials.getD none
      clean := self.clean.getD true
      clientId := self.clientId.getD none }

end ConfigBuilder

namespace Config

/-- The message `Client::connect` sends the loop. -/
def connectMsg (cfg : Config) : Except ErrorKind Backend.Connect := do
  let lwt ← cfg.lwt.mapM fun (t, q, r, m) => do
    let topic ← MqttString.fromStr t
    pure (LWTMessage.mk topic q r m)
  let clientId ← cfg.clientId.mapM MqttString.fromStr
  let cred ← cfg.credentials.mapM fun (user, p) => do
    let pwd ← p.mapM MqttString.fromStr
    let user ← MqttString.fromStr user
    pure (user, pwd)
  pure ⟨MqttPacket.connectPacket cfg.version lwt cred cfg.clean cfg.keepAlive clientId,
    if cfg.connectTimeout = 0 then none else some cfg.connectTimeout, rfl⟩

/-- The quality of service of the will, 0 without one. -/
def willQos (cfg : Config) : UInt8 :=
  match cfg.lwt with
  | some (_, q, _, _) => FromPrimitive.toU8 q
  | none => 0

def willRetain (cfg : Config) : Bool :=
  match cfg.lwt with
  | some (_, _, r, _) => r
  | none => false

end Config

/-! ## What the flags are to say -/

/-- The flags describe the payload and the configuration it is made of. -/
structure FlagsDescribe (cfg : Config) (flags : ConnFlags) (cid : MqttString) (will : Option (MqttString × Bytes))
    (creds : Credentials MqttString) : Prop where
  willFlag : flags.contains ConnFlags.willFlag = will.isSome
  willQos : flags.bits >>> 3 &&& 0b11 = cfg.willQos
  willRetain : flags.contains ConnFlags.willRetain = cfg.willRetain
  username : flags.contains ConnFlags.username = creds.isSome
  password : flags.contains ConnFlags.password = (creds.bind (·.2)).isSome
  cleanSess : flags.contains ConnFlags.cleanSess = cfg.clean
  emptyId : cid.str = "" → flags.contains ConnFlags.cleanSess = true

/-- The flags in the packet's header describe the packet. -/
def DescribesConnect (cfg : Config) (packet : MqttPacket) : Prop :=
  ∃ flags cid will creds, packet.headers.data.get? .connectFlags = some [flags.bits] ∧
    packet.payload = .connect cid will creds ∧ FlagsDescribe cfg flags cid will creds

/-- No will is set, and the session is a clean one unless a client id is set that is not empty. -/
def ConfigBuilder.Describable (b : ConfigBuilder) : Prop :=
  b.lwt.getD none = none ∧ ((b.clientId.getD none).getD "" = "" → b.clean.getD true = true)

/-! ## The packet -/

/-- The flags `connect_packet` sets. -/
def connectFlags (lwt : Option LWTMessage) (creds : Credentials MqttString) (clean : Bool) : ConnFlags :=
  let flags : ConnFlags := (lwt.elim Flags.empty fun will => Flags.empty.insert will.encodeFlags)
  let flags := creds.elim flags fun c => c.2.elim (flags.insert ConnFlags.username) fun _ =>
    (flags.insert ConnFlags.username).insert ConnFlags.password
  if clean then flags.insert ConnFlags.cleanSess else flags

theorem connectPacket_flags (version : ProtoLvl) (lwt : Option LWTMessage) (creds : Credentials MqttString)
    (clean : Bool) (keepAlive : UInt16) (id : Option MqttString) :
    (MqttPacket.connectPacket version lwt creds clean keepAlive id).headers.data.get? .connectFlags =
      some [(connectFlags lwt creds clean).bits] := by
  rcases lwt with _ | will <;> rcases creds with _ | ⟨user, _ | pass⟩ <;> rfl

theorem connectPacket_payload (version : ProtoLvl) (lwt : Option LWTMessage) (creds : Credentials MqttString)
    (clean : Bool) (keepAlive : UInt16) (id : Option MqttString) :
    (MqttPacket.connectPacket version lwt creds clean keepAlive id).payload =
      .connect (id.getD ⟨"", by decide⟩) (lwt.map fun will => (will.topic, will.message)) creds := by
  rcases lwt with _ | will <;> rfl

theorem bind_ok {α β : Type} {x : Except ErrorKind α} {f : α → Except ErrorKind β} {b : β} (h : (x >>= f) = .ok b) :
    ∃ a, x = .ok a ∧ f a = .ok b := by
  cases x with
  | error e => cases h
  | ok a => exact ⟨a, rfl, h⟩

theorem mapM_ok {α β : Type} {f : α → Except ErrorKind β} {o : Option α} {o' : Option β} (h : o.mapM f = .ok o') :
    (o = none ∧ o' = none) ∨ ∃ a b, o = some a ∧ o' = some b ∧ f a = .ok b := by
  cases o with
  | none =>
    cases h
    exact .inl ⟨rfl, rfl⟩
  | some a =>
    cases hf : f a with
    | error e =>
      rw [Option.mapM_some, hf] at h
      cases h
    | ok b =>
      rw [Option.mapM_some, hf] at h
      cases h
      exact .inr ⟨a, b, rfl, rfl, hf⟩

theorem fromStr_str {s : String} {t : MqttString} (h : MqttString.fromStr s = .ok t) : t.str = s := by
  unfold MqttString.fromStr at h
  split at h
  · cases h; rfl
  · cases h

/-- The strings are converted and nothing else changes on the way to the packet. -/
theorem connectMsg_packet {cfg : Config} {msg : Backend.Connect} (h : cfg.connectMsg = .ok msg) :
    ∃ lwt clientId creds, msg.packet = MqttPacket.connectPacket cfg.version lwt creds cfg.clean cfg.keepAlive clientId ∧
      lwt.isSome = cfg.lwt.isSome ∧ (clientId.getD ⟨"", by decide⟩).str = cfg.clientId.getD "" := by
  unfold Config.connectMsg at h
  obtain ⟨lwt, hlwt, h⟩ := bind_ok h
  obtain ⟨clientId, hid, h⟩ := bind_ok h
  obtain ⟨creds, hcreds, h⟩ := bind_ok h
  cases h
  refine ⟨lwt, clientId, creds, rfl, ?_, ?_⟩
  · rcases mapM_ok hlwt with ⟨h₁, h₂⟩ | ⟨a, b, h₁, h₂, -⟩
    · rw [h₁, h₂]; rfl
    · rw [h₁, h₂]; rfl
  · rcases mapM_ok hid with ⟨h₁, h₂⟩ | ⟨a, b, h₁, h₂, hb⟩
    · rw [h₁, h₂]; rfl
    · rw [h₁, h₂]; exact fromStr_str hb

/-! ## When the flags describe the packet -/

/-- No will sets `WILL_FLAG`. -/
theorem connectFlags_will (will : LWTMessage) (creds : Credentials MqttString) (clean : Bool) :
    (connectFlags (some will) creds clean).contains ConnFlags.willFlag = false := by
  obtain ⟨topic, qos, retain, message⟩ := will
  rcases creds with _ | ⟨user, _ | pass⟩ <;> cases qos <;> cases retain <;> cases clean <;>
    simp only [connectFlags, LWTMessage.encodeFlags, Option.elim, if_true] <;> decide

theorem connectFlags_noWill (creds : Credentials MqttString) (clean : Bool) :
    let flags := connectFlags none creds clean
    flags.contains ConnFlags.willFlag = false ∧ flags.bits >>> 3 &&& 0b11 = 0 ∧
      flags.contains ConnFlags.willRetain = false ∧ flags.contains ConnFlags.username = creds.isSome ∧
      flags.contains ConnFlags.password = (creds.bind (·.2)).isSome ∧ flags.contains ConnFlags.cleanSess = clean := by
  rcases creds with _ | ⟨user, _ | pass⟩ <;> cases clean <;>
    simp only [connectFlags, Option.elim, Option.bind, Option.isSome, if_true] <;> decide

/-- The flags of a configuration whose strings convert. -/
theorem describesConnect_iff {cfg : Config} {msg : Backend.Connect} (h : cfg.connectMsg = .ok msg) :
    DescribesConnect cfg msg.packet ↔ cfg.lwt = none ∧ (cfg.clientId.getD "" = "" → cfg.clean = true) := by
  obtain ⟨lwt, clientId, creds, hpacket, hlwt, hid⟩ := connectMsg_packet h
  rw [hpacket]
  constructor
  · rintro ⟨flags, cid, will, creds', hflags, hpayload, hdesc⟩
    rw [connectPacket_flags, Option.some.injEq, List.cons.injEq] at hflags
    rw [connectPacket_payload, Payload.connect.injEq] at hpayload
    obtain rfl : connectFlags lwt creds cfg.clean = flags := Flags.ext hflags.1
    obtain ⟨rfl, rfl, rfl⟩ := hpayload
    cases lwt with
    | some will =>
      have hw := hdesc.willFlag
      rw [connectFlags_will] at hw
      cases hw
    | none =>
      refine ⟨by simpa using hlwt, fun hempty => ?_⟩
      rw [← hdesc.cleanSess]
      exact hdesc.emptyId (hid.trans hempty)
  · rintro ⟨hnone, hempty⟩
    obtain rfl : lwt = none := by simpa [hnone] using hlwt
    obtain ⟨hflag, hqos, hretain, huser, hpass, hclean⟩ := connectFlags_noWill creds cfg.clean
    refine ⟨_, _, _, _, connectPacket_flags .., connectPacket_payload .., hflag, ?_, ?_, huser, hpass, hclean,
      fun he => ?_⟩
    · rw [hqos, Config.willQos, hnone]
    · rw [hretain, Config.willRetain, hnone]
    · rw [hclean]
      exact hempty (hid.symm.trans he)

/-- The flags of an accepted configuration describe the packet exactly when it has no will and asks
for a clean session unless it names a client. -/
theorem accepted_describes_iff {b : ConfigBuilder} {cfg : Config} {msg : Backend.Connect} (hbuild : b.build = .ok cfg)
    (hmsg : cfg.connectMsg = .ok msg) : DescribesConnect cfg msg.packet ↔ b.Describable := by
  rw [describesConnect_iff hmsg]
  unfold ConfigBuilder.build at hbuild
  split at hbuild
  · cases hbuild
  · cases hbuild
    rfl

/-- A client id and credentials. -/
theorem accepted_describes_iff_credentials :
    let b : ConfigBuilder := { clientId := some (some "c"), credentials := some (some ("u", some "p")) }
    ∃ cfg msg, b.build = .ok cfg ∧ cfg.connectMsg = .ok msg ∧ (DescribesConnect cfg msg.packet ↔ b.Describable) :=
  ⟨_, _, rfl, rfl, accepted_describes_iff rfl rfl⟩

/-- A session that is not clean and names no client is accepted, and so is a will, whose flag is not set. -/
theorem accepted_not_described :
    (∃ cfg msg, ConfigBuilder.build { clean := some false } = .ok cfg ∧ cfg.connectMsg = .ok msg ∧
      ¬DescribesConnect cfg msg.packet) ∧
    ∃ cfg msg,
      ConfigBuilder.build { clientId := some (some "c"), lwt := some (some ("t", .qoS2, false, [])) } = .ok cfg ∧
      cfg.connectMsg = .ok msg ∧ ¬DescribesConnect cfg msg.packet := by
  refine ⟨⟨_, _, rfl, rfl, fun h => ?_⟩, _, _, rfl, rfl, fun h => ?_⟩
  · cases ((describesConnect_iff rfl).1 h).2 rfl
  · cases ((describesConnect_iff rfl).1 h).1

end TokioMqtt.Client
