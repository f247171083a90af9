/-
The clients of the whole machine. A client waits on the channel its request opens; its sender is then held by the
status or by the data of the loop until the client is answered, or it is lost. Over every run, whatever messages come
and whatever sends fail, no client is answered twice or without having asked; and all are answered or still held
exactly if no step loses one.
-/
import TokioMqtt.Backend.Answers
import TokioMqtt.Backend.Closing
import TokioMqtt.Backend.Timers

namespace TokioMqtt.Backend

open Proto Runs Custody

variable {P : Type}

/-! ## The clients that are held -/

/-- The client of a connect or a disconnect under way. -/
def statusClient : Option LoopStatus → Option ClientReturnSender
  | some (.connecting _ client) => some client
  | some (.disconnecting client _) => some client
  | _ => none

/-- The clients whose senders the loop holds. -/
def heldClients (self : Loop P) : List ClientReturnSender := (statusClient self.status).toList ++ waiters self.data

/-- The clients that a step answers. -/
def Turn.answered (t : Turn P) : List ClientReturnSender := t.replies.map Reply.client

/-- A request whose client the loop keeps: a ping, or a request with an acknowledgement under an id that is free. A
publish is handed on without its client. -/
def KeepsRequest (packet : MqttPacket) (data : LoopData P) : Prop :=
  match packet.ty, packet.payload with
  | .pingReq, _ => True
  | .subscribe, .subscribe _ => .subscribe ⟨UInt16.ofNat data.nextPacketId⟩ ∉ data.oneTime
  | .unsubscribe, .unsubscribe _ => .unsubscribe ⟨UInt16.ofNat data.nextPacketId⟩ ∉ data.oneTime
  | _, _ => False

/-- A CONNACK whose return code, and where it accepts its flags, can be read. -/
def Readable (msg : MqttPacket) : Prop :=
  ∃ crc, msg.headers.get ConnectReturnCode = some crc ∧
    (crc.code.isOk = true → ∃ sess, msg.headers.get ConnectAckFlags = some sess)

/-- A step that loses no client. -/
def KeepsClients [Persistence P] (s : Loop P × Ctx) (i : MachineInput) : Prop :=
  match i.msg with
  | .connect _ => s.1.status = none → i.sendOk = true
  | .request msg => s.1.status = some .connected → KeepsRequest msg.packet s.1.data
  | .packet msg =>
    (working s.1.status = true → Tells s.1.data msg) ∧
      ∀ timer client, s.1.status = some (.connecting timer client) → msg.ty = .connAck → Readable msg
  | .pingTimeout => statusClient s.1.status = none
  | _ => True

/-! ## One message -/

/-- What a step does with the clients: those held and the one whose channel it opens are kept, answered or lost, and
none is lost exactly if `keeps`. -/
def Accounts (s : Loop P × Ctx) (t : Turn P) (keeps : Prop) : Prop :=
  ∃ opened lost, List.range' s.2.channels (t.ctx.channels - s.2.channels) = opened ∧
    s.2.channels + opened.length = t.ctx.channels ∧
    Passed (heldClients s.1 ++ opened) (heldClients t.loop) t.answered lost ∧ (lost = [] ↔ keeps)

section
variable {s : Loop P × Ctx} {t : Turn P} {keeps : Prop}

/-- A step that opens no channel. -/
theorem accounts_closed (lost : List ClientReturnSender) (hc : t.ctx.channels = s.2.channels)
    (hp : Passed (heldClients s.1) (heldClients t.loop) t.answered lost) (hk : lost = [] ↔ keeps) :
    Accounts s t keeps := by
  refine ⟨[], lost, by simp [hc], by simp [hc], ?_, hk⟩
  rwa [List.append_nil]

/-- A step that opens a channel. -/
theorem accounts_opened (lost : List ClientReturnSender) (hc : t.ctx.channels = s.2.channels + 1)
    (hp : Passed (heldClients s.1 ++ [s.2.channels]) (heldClients t.loop) t.answered lost) (hk : lost = [] ↔ keeps) :
    Accounts s t keeps :=
  ⟨[s.2.channels], lost, by simp [hc], by simp [hc], hp, hk⟩

/-- A step that leaves the clients where they are. -/
theorem accounts_idle (hc : t.ctx.channels = s.2.channels) (hh : heldClients t.loop = heldClients s.1)
    (ha : t.answered = []) (hk : keeps) : Accounts s t keeps := by
  refine accounts_closed [] hc ?_ (by simp [hk])
  rw [hh, ha]
  exact .refl _

end

theorem passed_perm {held kept out lost : List ClientReturnSender} (h : held.Perm (kept ++ out ++ lost)) :
    Passed held kept out lost := h

section
variable [Persistence P] (s : Loop P × Ctx) (ok : Bool)

theorem handleConnect_accounts (msg : Connect) :
    Accounts s (s.1.handleConnect ok msg s.2) (KeepsClients s ⟨.connect msg, ok⟩) := by
  have hspec := handleConnect_spec ok msg s.1 s.2
  generalize s.1.handleConnect ok msg s.2 = t at hspec ⊢
  cases hspec with
  | started hs hok =>
    refine accounts_opened [] rfl ?_ (by simp [KeepsClients, hok])
    apply passed_perm
    simp [heldClients, statusClient, hs, Turn.answered]
  | unsent hs hok =>
    refine accounts_opened [s.2.channels] rfl ?_ (by simp [KeepsClients, hs, hok])
    apply passed_perm
    simp [Turn.answered]
  | reported hs =>
    exact accounts_idle rfl (by simp [heldClients, hs, statusClient]) rfl (by simp [KeepsClients, hs])
  | refused hs => exact accounts_idle rfl rfl rfl (by simp [KeepsClients, hs])

theorem handleConnectTimeout_accounts :
    Accounts s (s.1.handleConnectTimeout s.2) (KeepsClients s ⟨.connectTimeout, ok⟩) := by
  unfold Loop.handleConnectTimeout
  rcases hs : s.1.status with _ | (_ | ⟨timer, client⟩ | _ | _ | e)
  case some.connecting =>
    refine accounts_closed [] rfl (passed_perm ?_) (by simp [KeepsClients])
    simp only [heldClients, hs, statusClient, Turn.answered, List.append_nil]
    exact List.perm_append_comm
  case some.pendingError => exact accounts_idle rfl (by simp [heldClients, hs, statusClient]) rfl trivial
  all_goals exact accounts_idle rfl (by simp [heldClients]) rfl trivial

theorem handleDisconnect_accounts (msg : Disconnect) :
    Accounts s (s.1.handleDisconnect ok msg s.2) (KeepsClients s ⟨.disconnect msg, ok⟩) := by
  have hspec := handleDisconnect_spec ok msg s.1 s.2
  generalize s.1.handleDisconnect ok msg s.2 = t at hspec ⊢
  cases hspec with
  | waits hs | closes hs | unsent hs =>
    refine accounts_opened [] rfl (passed_perm ?_) (by simp [KeepsClients])
    simp [heldClients, statusClient, hs, Turn.answered]
  | reported hs => exact accounts_idle rfl (by simp [heldClients, hs, statusClient]) rfl trivial
  | refused hs => exact accounts_idle rfl rfl rfl trivial
  | unexpected hs => exact accounts_idle rfl rfl rfl trivial

theorem handlePingRequest_accounts (config : Config) :
    Accounts s (s.1.handlePingRequest config ok s.2) (KeepsClients s ⟨.pingRequest, ok⟩) := by
  cases hw : working s.1.status with
  | true =>
    obtain ⟨hloop, hctx, -, hreplies, -⟩ := handlePingRequest_working config ok s.2 hw
    refine accounts_opened [] (by rw [hctx]) (passed_perm ?_) (by simp [KeepsClients])
    rw [hloop, Turn.answered, hreplies]
    simp [heldClients, waiters]
  | false =>
    rw [handlePingRequest_idle config ok s.2 hw]
    exact accounts_idle rfl rfl rfl trivial

theorem handlePingTimeout_accounts :
    Accounts s (s.1.handlePingTimeout s.2) (KeepsClients s ⟨.pingTimeout, ok⟩) := by
  unfold Loop.handlePingTimeout
  rcases hs : s.1.status with _ | (_ | ⟨timer, client⟩ | _ | ⟨client, state⟩ | e)
  case some.connecting | some.disconnecting =>
    refine accounts_closed [client] rfl (passed_perm ?_) (by simp [KeepsClients, hs, statusClient])
    simp only [heldClients, hs, statusClient, Turn.answered, List.map_nil, List.append_nil]
    exact List.perm_append_comm
  all_goals
    refine accounts_idle rfl ?_ rfl ?_
    · simp [heldClients, hs, statusClient]
    · simp [KeepsClients, hs, statusClient]

end

/-! ## Requests -/

/-- A request whose entry is inserted: its client is kept, and the one whose entry it replaces is lost. -/
theorem accounts_insert {s : Loop P × Ctx} {key : OneTimeKey} {packet : MqttPacket} {t : Turn P}
    (hc : t.ctx.channels = s.2.channels + 1) (hs : statusClient t.loop.status = statusClient s.1.status)
    (hd : t.loop.data = { s.1.data.genPacketId.2 with oneTime := s.1.data.oneTime.insert key (packet, s.2.channels) })
    (ha : t.answered = []) : Accounts s t (key ∉ s.1.data.oneTime) := by
  have hheld : heldClients t.loop = (statusClient s.1.status).toList ++
      (tokens PublishState.client s.1.data.clientPublishState ++
        (s.2.channels :: tokens (fun v => some v.2) (s.1.data.oneTime.erase key)) ++ s.1.data.pingSubs) := by
    simp only [heldClients, hs, hd, waiters]
    rw [tokens_insert_erase]
    rfl
  by_cases hkey : key ∈ s.1.data.oneTime
  · obtain ⟨⟨o, client⟩, hl⟩ := Option.isSome_iff_exists.1 (AList.lookup_isSome.2 hkey)
    have herase := tokens_erase (fun v : MqttPacket × ClientReturnSender => some v.2) hl
    refine accounts_opened [client] hc (passed_perm ?_) (by simp [hkey])
    rw [hheld, ha, List.perm_iff_count]
    intro c
    have hcount := herase.count_eq c
    simp only [heldClients, waiters, List.count_append, List.count_cons, List.count_nil, Option.toList_some] at hcount ⊢
    omega
  · refine accounts_opened [] hc (passed_perm ?_) (by simp [hkey])
    have herase : s.1.data.oneTime.erase key = s.1.data.oneTime := AList.ext (List.kerase_of_notMem_keys hkey)
    rw [hheld, herase, ha, List.perm_iff_count]
    intro c
    simp only [heldClients, waiters, List.count_append, List.count_cons, List.count_nil]
    omega

/-- A request on a connected loop whose handler leaves the clients where they are loses its own. -/
theorem accounts_lost {s : Loop P × Ctx} {t : Turn P} {keeps : Prop} (hc : t.ctx.channels = s.2.channels + 1)
    (hh : heldClients t.loop = heldClients s.1) (ha : t.answered = []) (hk : ¬keeps) : Accounts s t keeps := by
  refine accounts_opened [s.2.channels] hc (passed_perm ?_) (by simp [hk])
  rw [hh, ha]
  simp

theorem handleRequest_replies (handlers : RequestHandlers P) (ok : Bool) (packet : MqttPacket) (s : Loop P × Ctx)
    (hs : s.1.status = some .connected) : (s.1.handleRequest handlers ok packet s.2).replies =
      (handlers.dispatch packet s.2.channels s.1.data).replies := by
  unfold Loop.handleRequest
  rw [hs]
  simp only
  split
  · split <;> rfl
  · rfl
  · rfl

theorem handleRequest_accounts [Persistence P] (s : Loop P × Ctx) (ok : Bool) (msg : ClientRequest) :
    Accounts s (s.1.handleRequest requestHandlers ok msg.packet s.2) (KeepsClients s ⟨.request msg, ok⟩) := by
  by_cases hs : s.1.status = some .connected
  · obtain ⟨hstatus, hdata, hc⟩ := handleRequest_connected s.2 requestHandlers ok msg.packet hs
    have hreplies := handleRequest_replies requestHandlers ok msg.packet s hs
    generalize s.1.handleRequest requestHandlers ok msg.packet s.2 = t at hstatus hdata hc hreplies ⊢
    have hkeeps : KeepsClients s ⟨.request msg, ok⟩ ↔ KeepsRequest msg.packet s.1.data := by simp [KeepsClients, hs]
    have hsame : statusClient t.loop.status = statusClient s.1.status := by rw [hstatus, hs]
    have hlost (hd : (requestHandlers.dispatch msg.packet s.2.channels s.1.data).data = s.1.data)
        (hr : (requestHandlers.dispatch msg.packet s.2.channels s.1.data).replies = [])
        (hk : ¬KeepsRequest msg.packet s.1.data) : Accounts s t (KeepsRequest msg.packet s.1.data) := by
      rw [hd] at hdata
      rw [hr] at hreplies
      exact accounts_lost hc (by rw [heldClients, hsame, hdata, heldClients]) (by rw [Turn.answered, hreplies]; rfl) hk
    rw [propext hkeeps]
    unfold RequestHandlers.dispatch requestHandlers at hdata hreplies hlost
    unfold KeepsRequest at hlost ⊢
    cases hty : msg.packet.ty with
    | subscribe =>
      simp only [hty] at hdata hreplies hlost ⊢
      cases hp : msg.packet.payload with
      | subscribe subs =>
        simp only [hp] at hdata hreplies hlost ⊢
        rcases Outbound.Subscribe.handle_cases ⟨subs.map fun x => (x.1.str, x.2)⟩ s.2.channels s.1.data with
          ⟨e, he, -⟩ | ⟨subs', -, hout⟩
        · cases (newSubs_subscribe subs).symm.trans he
        · rw [hout] at hdata hreplies
          exact accounts_insert hc hsame hdata (by rw [Turn.answered, hreplies]; rfl)
      | _ =>
        simp only [hp] at hlost ⊢
        exact hlost rfl rfl not_false
    | unsubscribe =>
      simp only [hty] at hdata hreplies hlost ⊢
      cases hp : msg.packet.payload with
      | unsubscribe topics =>
        simp only [hp] at hdata hreplies hlost ⊢
        rcases Outbound.Unsubscribe.handle_cases ⟨topics.map MqttString.str⟩ s.2.channels s.1.data with
          ⟨e, he, -⟩ | ⟨topics', -, hout⟩
        · cases (newSubs_unsubscribe topics).symm.trans he
        · rw [hout] at hdata hreplies
          exact accounts_insert hc hsame hdata (by rw [Turn.answered, hreplies]; rfl)
      | _ =>
        simp only [hp] at hlost ⊢
        exact hlost rfl rfl not_false
    | pingReq =>
      simp only [hty] at hdata hreplies ⊢
      refine accounts_opened [] hc (passed_perm ?_) (by simp)
      rw [heldClients, heldClients, hsame, hdata, Turn.answered, hreplies]
      simp [waiters, Outbound.pingReqHandler]
    | _ =>
      simp only [hty] at hlost ⊢
      exact hlost rfl rfl not_false
  · obtain ⟨hdata, hctx, -, hreplies⟩ := handleRequest_other requestHandlers ok msg.packet s.2 hs
    refine accounts_idle (by rw [hctx]) ?_ (by rw [Turn.answered, hreplies]; rfl) (by simp [KeepsClients, hs])
    rw [heldClients, hdata, heldClients]
    congr 2
    unfold Loop.handleRequest
    rcases hs' : s.1.status with _ | (_ | _ | _ | _ | e)
    case some.connected => exact absurd hs' hs
    all_goals simp [hs', statusClient]

/-! ## Packets -/

theorem connAckHandler_clients (msg : MqttPacket) (client : ClientReturnSender) (data : LoopData P) :
    waiters (connAckHandler msg client data).2.data = waiters data ∧
      statusClient (connAckHandler msg client data).1 = none ∧
      (Readable msg ∧ (connAckHandler msg client data).2.answered = [client] ∨
        ¬Readable msg ∧ (connAckHandler msg client data).2.answered = []) := by
  unfold connAckHandler Readable
  cases hcrc : msg.headers.get ConnectReturnCode with
  | none => exact ⟨rfl, rfl, .inr ⟨by simp, rfl⟩⟩
  | some crc =>
    simp only
    by_cases hok : crc.code.isOk = true
    · rw [if_pos hok]
      cases hsess : msg.headers.get ConnectAckFlags with
      | none => exact ⟨rfl, rfl, .inr ⟨by simp [hok], rfl⟩⟩
      | some sess =>
        simp only
        split
        · exact ⟨rfl, rfl, .inl ⟨⟨crc, rfl, fun _ => ⟨sess, rfl⟩⟩, rfl⟩⟩
        · exact ⟨rfl, rfl, .inl ⟨⟨crc, rfl, fun _ => ⟨sess, rfl⟩⟩, rfl⟩⟩
    · rw [if_neg hok]
      exact ⟨rfl, rfl, .inl ⟨⟨crc, rfl, fun h => absurd h hok⟩, rfl⟩⟩

section
variable [Persistence P] (serialize : MqttPacket → Bytes)

/-- A loop that waits to disconnect settles its clients as a connected one does; it drops the publishes, which concern
no client. -/
theorem handleWaiting_settles (p : MqttPacket) (data : LoopData P) :
    Settles data (handleWaiting serialize p data) (Tells data p) := by
  have h := handlePacket_settles serialize p data
  unfold handlePacket at h
  unfold handleWaiting
  cases hty : p.ty with
  | publish => exact settles_idle rfl rfl (by simp [Tells, hty])
  | pingResp | pubAck | pubRec | pubComp | pubRel | subAck | unsubAck =>
    simp only [hty] at h
    exact h
  | _ => exact settles_idle rfl rfl (by simp [Tells, hty])

theorem handleMessage_accounts (s : Loop P × Ctx) (ok : Bool) (msg : MqttPacket) :
    Accounts s (s.1.handleMessage serialize ok msg s.2) (KeepsClients s ⟨.packet msg, ok⟩) := by
  obtain ⟨hstatus, hdata, hc, hreplies⟩ := handleMessage_loop serialize ok msg s.1 s.2
  generalize s.1.handleMessage serialize ok msg s.2 = t at hstatus hdata hc hreplies ⊢
  -- the clients of the data are settled by the handler, and the status keeps its own
  have hsettled (hw : working s.1.status = true) {out : Handled P}
      (hd : s.1.dispatch serialize msg = (s.1.status, [], out)) (hout : Settles s.1.data out (Tells s.1.data msg)) :
      Accounts s t (KeepsClients s ⟨.packet msg, ok⟩) := by
    obtain ⟨lost, hp, hl⟩ := hout
    have hkeeps : KeepsClients s ⟨.packet msg, ok⟩ ↔ Tells s.1.data msg := by
      refine ⟨fun h => h.1 hw, fun h => ⟨fun _ => h, fun timer client hs => ?_⟩⟩
      rw [hs] at hw
      cases hw
    refine accounts_closed lost hc (passed_perm ?_) (hl.trans hkeeps.symm)
    rw [hd] at hstatus hdata hreplies
    rw [heldClients, heldClients, hstatus, hdata, Turn.answered, hreplies]
    have hperm := hp.append_left (statusClient s.1.status).toList
    simpa [Handled.answered] using hperm
  have hidle (hw : working s.1.status = false) (hno : ∀ timer client, s.1.status = some (.connecting timer client) →
      msg.ty ≠ .connAck) (hd : s.1.dispatch serialize msg = (s.1.status, [], .stop s.1.data (.ok none))) :
      Accounts s t (KeepsClients s ⟨.packet msg, ok⟩) := by
    rw [hd] at hstatus hdata hreplies
    refine accounts_idle hc (by rw [heldClients, hstatus, hdata]; rfl) (by rw [Turn.answered, hreplies]; rfl) ?_
    refine ⟨fun h => ?_, fun timer client hs hty => absurd hty (hno timer client hs)⟩
    rw [hw] at h
    cases h
  rcases hs : s.1.status with _ | (_ | ⟨timer, client⟩ | _ | ⟨client, _ | _⟩ | e)
  case some.connected =>
    exact hsettled (by rw [hs]; rfl) (by simp [Loop.dispatch, hs]) (handlePacket_settles serialize msg s.1.data)
  case some.disconnecting.waiting =>
    exact hsettled (by rw [hs]; rfl) (by simp [Loop.dispatch, hs]) (handleWaiting_settles serialize msg s.1.data)
  case some.connecting =>
    by_cases hty : msg.ty = .connAck
    · obtain ⟨hw, hnone, hanswer⟩ := connAckHandler_clients msg client s.1.data
      have hd : s.1.dispatch serialize msg = ((connAckHandler msg client s.1.data).1, timer.toList.map .cancelFuture,
          (connAckHandler msg client s.1.data).2) := by
        simp [Loop.dispatch, hs, hty]
      rw [hd] at hstatus hdata hreplies
      have hkeeps : KeepsClients s ⟨.packet msg, ok⟩ ↔ Readable msg := by
        refine ⟨fun h => h.2 timer client hs hty, fun h => ⟨fun hwork => ?_, fun _ _ _ _ => h⟩⟩
        rw [hs] at hwork
        cases hwork
      have hafter : heldClients t.loop = waiters s.1.data := by
        rw [heldClients, hstatus, hnone, hdata, hw]
        rfl
      have hbefore : heldClients s.1 = client :: waiters s.1.data := by
        rw [heldClients, hs]
        rfl
      rcases hanswer with ⟨hread, ha⟩ | ⟨hread, ha⟩
      · refine accounts_closed [] hc (passed_perm ?_) (by simp [hkeeps, hread])
        rw [hafter, hbefore, Turn.answered, hreplies, ← Handled.answered, ha, List.append_nil]
        exact (List.perm_append_singleton client _).symm
      · refine accounts_closed [client] hc (passed_perm ?_) (by simp [hkeeps, hread])
        rw [hafter, hbefore, Turn.answered, hreplies, ← Handled.answered, ha, List.append_nil]
        exact (List.perm_append_singleton client _).symm
    · refine hidle (by rw [hs]; rfl) (fun _ _ _ => hty) ?_
      unfold Loop.dispatch
      rw [hs]
      simp only
  all_goals exact hidle (by rw [hs]; rfl) (by simp [hs]) (by simp [Loop.dispatch, hs])

/-- Every step accounts for its clients, and loses none exactly if it keeps them. -/
theorem machineStep_accounts (config : Config) (s : Loop P × Ctx) (i : MachineInput) :
    Accounts s (machineStep requestHandlers serialize config s i) (KeepsClients s i) := by
  obtain ⟨msg, ok⟩ := i
  cases msg with
  | connect msg => exact handleConnect_accounts s ok msg
  | connectTimeout => exact handleConnectTimeout_accounts s ok
  | request msg => exact handleRequest_accounts s ok msg
  | packet msg => exact handleMessage_accounts serialize s ok msg
  | disconnect msg => exact handleDisconnect_accounts s ok msg
  | disconnectTimeout => exact accounts_idle rfl rfl rfl trivial
  | pingRequest => exact handlePingRequest_accounts s ok config
  | pingResponse timeout => exact accounts_idle rfl rfl rfl trivial
  | pingTimeout => exact handlePingTimeout_accounts s ok

end

/-! ## Every run -/

/-- The clients answered over the steps of a run. -/
def repliedBy (steps : List (MachineStep P)) : List ClientReturnSender := steps.flatMap fun r => r.out.answered

/-- The clients held at the start and those whose channels were opened since, after the steps of a run. -/
def AccountedSince [Persistence P] (start : Loop P × Ctx) (past : List (MachineStep P)) (s : Loop P × Ctx) : Prop :=
  ∃ lost, start.2.channels ≤ s.2.channels ∧
    Passed (heldClients start.1 ++ List.range' start.2.channels (s.2.channels - start.2.channels)) (heldClients s.1)
      (repliedBy past) lost ∧ (lost = [] ↔ ∀ r ∈ past, KeepsClients r.before r.input)

theorem accountedSince_step [Persistence P] {start s : Loop P × Ctx} {past : List (MachineStep P)} {i : MachineInput}
    {t : Turn P} (h : AccountedSince start past s) (ht : Accounts s t (KeepsClients s i)) :
    AccountedSince start (past ++ [⟨s, i, t⟩]) (t.loop, t.ctx) := by
  obtain ⟨lost, hle, hp, hl⟩ := h
  obtain ⟨opened, lost', hopened, hchannels, hp', hl'⟩ := ht
  refine ⟨lost ++ lost', by simp only; omega, ?_, ?_⟩
  · have hrange : List.range' start.2.channels (t.ctx.channels - start.2.channels) =
        List.range' start.2.channels (s.2.channels - start.2.channels) ++ opened := by
      have hlen : t.ctx.channels - start.2.channels =
          (s.2.channels - start.2.channels) + (t.ctx.channels - s.2.channels) := by omega
      rw [hlen, ← List.range'_append_1, Nat.add_sub_cancel' hle, hopened]
    simp only
    rw [hrange, ← List.append_assoc]
    have hsum : (heldClients start.1 ++ List.range' start.2.channels (s.2.channels - start.2.channels) ++ opened).Perm
        (heldClients t.loop ++ (repliedBy past ++ t.answered) ++ (lost ++ lost')) := by
      rw [List.perm_iff_count]
      intro c
      have h1 := hp.count_eq c
      have h2 := hp'.count_eq c
      simp only [List.count_append] at h1 h2 ⊢
      omega
    simpa [Passed, repliedBy] using hsum
  · simp only [List.append_eq_nil_iff, List.forall_mem_append, List.forall_mem_singleton, hl, hl']

/-- The clients that wait at the start are told apart from those that ask later. -/
theorem clients_nodup {start : Loop P × Ctx} (hd : (heldClients start.1).Nodup)
    (hlt : ∀ c ∈ heldClients start.1, c < start.2.channels) (n : Nat) :
    (heldClients start.1 ++ List.range' start.2.channels n).Nodup := by
  refine List.nodup_append.2 ⟨hd, List.nodup_range', fun c hc c' hc' => ?_⟩
  exact Nat.ne_of_lt (Nat.lt_of_lt_of_le (hlt c hc) (List.mem_range'_1.1 hc').1)

section
variable [Persistence P] (serialize : MqttPacket → Bytes) (config : Config) (start : Loop P × Ctx)
  (inputs : List MachineInput)

theorem accountedSince_run {pre post : List (MachineStep P)} {r : MachineStep P}
    (h : machineRun requestHandlers serialize config start inputs = pre ++ r :: post) :
    AccountedSince start (pre ++ [r]) (r.out.loop, r.out.ctx) := by
  have hbefore : AccountedSince start pre r.before := by
    refine run_history (H := AccountedSince start) (G := fun _ => True) ?_ inputs [] start ⟨[], le_rfl, ?_, by simp⟩
      (fun _ _ => trivial) pre r post h
    · intro past s i s' hpast _ hn
      rw [Turn.next_eq hn]
      exact accountedSince_step hpast (machineStep_accounts serialize config s i)
    · simpa [repliedBy] using Passed.refl (heldClients start.1)
  have hmem : r ∈ machineRun requestHandlers serialize config start inputs := by rw [h]; simp
  rw [run_eq hmem]
  exact accountedSince_step hbefore (machineStep_accounts serialize config r.before r.input)

end

theorem askRun_eq :
    machineRun requestHandlers (fun _ => []) ⟨30⟩ idleLoop [askA, grantA] = [askStep] ++ grantStep :: [] := rfl

/-- The step takes a client's disconnect. -/
def TakesDisconnect (r : TimedStep P) (client : ClientReturnSender) : Prop :=
  (∃ msg, r.input.input.msg = .disconnect msg) ∧ r.before.machine.1.status = some .connected ∧
    client = r.before.machine.2.channels

/-- The loop waits to disconnect, for a client it holds nowhere else. -/
structure Departing (loop : Loop P) (client : ClientReturnSender) : Prop where
  status : ∃ state, loop.status = some (.disconnecting client state)
  apart : client ∉ waiters loop.data

/-- The clients that are held asked before. -/
def AskedBefore (s : Loop P × Ctx) : Prop := ∀ c ∈ heldClients s.1, c < s.2.channels

section
variable [Persistence P] {serialize : MqttPacket → Bytes} {config : Config} {s : Loop P × Ctx} {i : MachineInput}

theorem machineStep_askedBefore (h : AskedBefore s) :
    AskedBefore ((machineStep requestHandlers serialize config s i).loop,
      (machineStep requestHandlers serialize config s i).ctx) := by
  obtain ⟨opened, lost, hopened, hlen, hp, -⟩ := machineStep_accounts serialize config s i
  intro c hc
  have hmem := hp.mem_iff.2 (List.mem_append_left lost (List.mem_append_left _ hc))
  rcases List.mem_append.1 hmem with hold | hnew
  · exact Nat.lt_of_lt_of_le (h c hold) (hlen ▸ Nat.le_add_right ..)
  · rw [← hopened] at hnew
    have hlt := (List.mem_range'_1.1 hnew).2
    rwa [Nat.add_sub_cancel' (hlen ▸ Nat.le_add_right ..)] at hlt

/-- A client that a step leaves in the status is not in the data, and is not answered. -/
theorem departing_of_count {client : ClientReturnSender} {state : DisconnectState}
    (hone : ∀ opened, List.range' s.2.channels ((machineStep requestHandlers serialize config s i).ctx.channels -
      s.2.channels) = opened → (heldClients s.1 ++ opened).count client = 1)
    (hs : (machineStep requestHandlers serialize config s i).loop.status = some (.disconnecting client state)) :
    Departing (machineStep requestHandlers serialize config s i).loop client ∧
      client ∉ (machineStep requestHandlers serialize config s i).answered := by
  obtain ⟨opened, lost, hopened, -, hp, -⟩ := machineStep_accounts serialize config s i
  have hcount := hp.count_eq client
  rw [hone opened hopened] at hcount
  simp only [heldClients, hs, statusClient, Option.toList_some, List.count_append, List.count_cons_self,
    List.count_nil] at hcount
  refine ⟨⟨⟨state, hs⟩, List.count_eq_zero.1 (by omega)⟩, List.count_eq_zero.1 (by omega)⟩

end

section
variable [Persistence P] {serialize : MqttPacket → Bytes} {config : Config} {s s' : Timed P} {i : TimedInput}

/-- A disconnect that is taken leaves the loop waiting, whatever becomes of its packet. -/
theorem departing_taken {client : ClientReturnSender} (hasked : AskedBefore s.machine)
    (h : TakesDisconnect ⟨s, i, timedStep requestHandlers serialize config s i⟩ client) :
    Departing (machineStep requestHandlers serialize config s.machine i.input).loop client := by
  obtain ⟨⟨msg, hi⟩, hs, rfl⟩ := h
  simp only at hi hs
  have hnew : ∃ state, (machineStep requestHandlers serialize config s.machine i.input).loop.status =
      some (.disconnecting s.machine.2.channels state) ∧
      (machineStep requestHandlers serialize config s.machine i.input).ctx.channels = s.machine.2.channels + 1 := by
    unfold machineStep
    simp only [hi]
    have hspec := handleDisconnect_spec i.input.sendOk msg s.machine.1 s.machine.2
    generalize s.machine.1.handleDisconnect i.input.sendOk msg s.machine.2 = t at hspec ⊢
    cases hspec with
    | waits | closes | unsent => exact ⟨_, rfl, rfl⟩
    | reported hs' | unexpected hs' =>
      rw [hs] at hs'
      cases hs'
    | refused _ hno => exact absurd hs hno
  obtain ⟨state, hstatus, hchannels⟩ := hnew
  refine (departing_of_count (fun opened hopened => ?_) hstatus).1
  -- the channel is new, so the client is held nowhere yet
  have hzero : (heldClients s.machine.1).count s.machine.2.channels = 0 :=
    List.count_eq_zero.2 fun hmem => Nat.lt_irrefl _ (hasked _ hmem)
  rw [hchannels] at hopened
  simp only [Nat.add_sub_cancel_left, List.range'_one] at hopened
  rw [← hopened, List.count_append, hzero]
  simp

/-- A loop that waits to disconnect goes on waiting, and does not answer the client. -/
theorem departing_step {client : ClientReturnSender} (hs : Unscheduled s) (hasked : AskedBefore s.machine)
    (hb : Backed ⟨s, i, timedStep requestHandlers serialize config s i⟩) (h : Departing s.machine.1 client) :
    Departing (machineStep requestHandlers serialize config s.machine i.input).loop client ∧
      client ∉ (machineStep requestHandlers serialize config s.machine i.input).answered := by
  have hno := hs.not_keepAlive hb
  obtain ⟨state, hstatus⟩ := h.status
  have hkept : (machineStep requestHandlers serialize config s.machine i.input).loop.status = s.machine.1.status := by
    cases machineStep_statusStep requestHandlers serialize config s.machine i.input with
    | kept h => exact h
    | attempt hi hs' | acknowledged hi hs' | timedOut hi hs' | leaves hi hs' =>
      rw [hstatus] at hs'
      cases hs'
    | reported hs' => exact absurd hs' (hs.status _)
    | pingTimedOut hi =>
      rw [hi] at hno
      cases hno
  refine departing_of_count (fun opened hopened => ?_) (hkept.trans hstatus)
  have hmem : client ∈ heldClients s.machine.1 := by
    simp [heldClients, hstatus, statusClient]
  have hnew : opened.count client = 0 := by
    refine List.count_eq_zero.2 fun hin => ?_
    rw [← hopened] at hin
    exact absurd (hasked client hmem) (Nat.not_lt.2 (List.mem_range'_1.1 hin).1)
  rw [List.count_append, hnew, heldClients, hstatus, List.count_append, List.count_eq_zero.2 h.apart]
  simp [statusClient]

end

/-- What the steps made so far and the state have to do with each other. -/
structure DepartHistory (client : ClientReturnSender) (past : List (TimedStep P)) (s : Timed P) : Prop where
  unscheduled : Unscheduled s
  asked : AskedBefore s.machine
  departing : ∀ q ∈ past, TakesDisconnect q client → Departing s.machine.1 client

theorem departHistory_step [Persistence P] {serialize : MqttPacket → Bytes} {config : Config}
    {client : ClientReturnSender} (past : List (TimedStep P)) (s : Timed P) (i : TimedInput) (s' : Timed P)
    (h : DepartHistory client past s) (hb : Backed ⟨s, i, timedStep requestHandlers serialize config s i⟩)
    (hn : timedNext (timedStep requestHandlers serialize config s i) = some s') :
    DepartHistory client (past ++ [⟨s, i, timedStep requestHandlers serialize config s i⟩]) s' := by
  have hs' := unscheduled_step h.unscheduled hb hn
  obtain ⟨rfl, -⟩ := timedNext_eq hn
  refine ⟨hs', machineStep_askedBefore h.asked, fun q hq htakes => ?_⟩
  rcases List.mem_append.1 hq with hq | hq
  · exact (departing_step h.unscheduled h.asked hb (h.departing q hq htakes)).1
  · obtain rfl := List.mem_singleton.1 hq
    exact departing_taken h.asked htakes

/-- A connected loop, of which nothing is pending. -/
def idleTimed : Timed MemStore := ⟨idleLoop, ⟨[], [], []⟩⟩

def departInput : TimedInput := ⟨⟨.disconnect disconnectNow, true⟩, 0⟩

def departStep : TimedStep MemStore :=
  ⟨idleTimed, departInput, timedStep requestHandlers (fun _ => []) ⟨30⟩ idleTimed departInput⟩

def afterDepart : Timed MemStore := ⟨(departStep.out.1.loop, departStep.out.1.ctx), departStep.out.2⟩

/-- A ping that is asked for after the disconnect. -/
def pingInput : TimedInput := ⟨⟨.request pingNow, true⟩, 0⟩

def lastStep : TimedStep MemStore :=
  ⟨afterDepart, pingInput, timedStep requestHandlers (fun _ => []) ⟨30⟩ afterDepart pingInput⟩

theorem departRun_eq : timedRun requestHandlers (fun _ => []) ⟨30⟩ idleTimed [departInput, pingInput] =
    [] ++ departStep :: ([] ++ lastStep :: []) := rfl

end TokioMqtt.Backend
