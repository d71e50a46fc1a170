import SystemInformer.Driver.CommsSend
import SystemInformer.Proofs.MsgDynTable

/-!
# Who is offered a message, and whose reply is returned

While the reply buffer holds an unhandled message the loop is open: the next client may
answer. An answer that fails any check is replaced by an unhandled message, so the buffer
validates at every turn, and the first answer that passes closes the loop for good. The
header of that answer is all its own, since a reply of less than eight bytes cannot turn
the unhandled id into a valid one.

Two things do not follow. The length of a reply is never compared with the size its header
declares: the rest of a short reply is what was in the buffer, and `KphMsgInit` clears
only the fixed part of it, so it may be bytes of a client that was turned down. And an
asynchronous copy is queued for a process, not for a client: a process with two
connections gets each copy on both of them.
-/

namespace SystemInformer.Driver

open Bytes KphLib

/-! ## Replies -/

def replyMem (written : List UInt8) : Mem := (Store.mk 0 written).apply fun _ => 0

/-- The client's reply went through and passes every check, and it handles the message. -/
def ClientTurn.answers (turn : ClientTurn) : Bool :=
  ntSuccess turn.filterReference && ntSuccess (kphpFltSendMessage turn) &&
    hasState turn.processState kphProcessStateMaximum && decide (8 ≤ turn.written.length) &&
    ntSuccess (kphMsgValidate (replyMem turn.written)) &&
    decide (headerMessageId (replyMem turn.written) ≠ kphMsgUnhandled)

/-- The buffer holds an unhandled message: a client may still answer. -/
def OpenReply (reply : Mem) : Prop :=
  kphMsgValidate reply = statusSuccess ∧ headerMessageId reply = kphMsgUnhandled

theorem unhandledReply_open (timeStamp : UInt64) (reply : Mem) :
    OpenReply (unhandledReply timeStamp reply) := by
  obtain ⟨hversion, hsize, hid⟩ := kphMsgInit_header reply 0xffffffff timeStamp
  have hid : headerMessageId (unhandledReply timeStamp reply) = kphMsgUnhandled := hid
  refine ⟨validate_eq_success_iff.mpr ⟨hversion, ?_, .inl hid⟩, hid⟩
  rw [unhandledReply, hsize]
  decide

theorem headerMessageId_eq (m : Mem) : headerMessageId m =
    (m 4).toNat + 256 * ((m 5).toNat + 256 * ((m 6).toNat + 256 * (m 7).toNat)) := by
  simp [headerMessageId, Bytes.field, load, leDecode, List.range_succ]

theorem headerMessageId_top {m : Mem} (h : headerMessageId m = kphMsgUnhandled) :
    (m 7).toNat = 255 := by
  rw [headerMessageId_eq, kphMsgUnhandled] at h
  have h₄ := (m 4).toNat_lt
  have h₅ := (m 5).toNat_lt
  have h₆ := (m 6).toNat_lt
  have h₇ := (m 7).toNat_lt
  omega

theorem unhandled_of_top {m : Mem} (hvalid : kphMsgValidate m = statusSuccess)
    (htop : (m 7).toNat = 255) : headerMessageId m = kphMsgUnhandled := by
  rcases (validate_eq_success_iff.mp hvalid).2.2 with h | ⟨-, hlt⟩
  · exact h
  · rw [headerMessageId_eq, htop, maxKphMsg] at hlt
    omega

section

variable {turn : ClientTurn} {reply : Mem}

theorem write_of_reference (h : ntSuccess turn.filterReference = true) :
    turn.write reply = (Store.mk 0 turn.written).apply reply :=
  if_neg (by simp [h])

theorem apply_written {m : Mem} {a : Nat} (h : a < turn.written.length) :
    (Store.mk 0 turn.written).apply m a = turn.written.getD a 0 :=
  if_pos ⟨Nat.zero_le _, by simpa using h⟩

theorem write_header (reply : Mem) (href : ntSuccess turn.filterReference = true)
    (hlong : 8 ≤ turn.written.length) :
    headerSize (turn.write reply) = headerSize (replyMem turn.written) ∧
      headerMessageId (turn.write reply) = headerMessageId (replyMem turn.written) ∧
      kphMsgValidate (turn.write reply) = kphMsgValidate (replyMem turn.written) := by
  refine header_congr fun i hi => ?_
  rw [write_of_reference href, replyMem, apply_written (by omega), apply_written (by omega)]

theorem reference_of_send (h : ntSuccess (kphpFltSendMessage turn) = true) :
    ntSuccess turn.filterReference = true := by
  unfold kphpFltSendMessage at h
  split at h
  · exact h
  · next hne => exact Bool.eq_true_of_not_eq_false hne

theorem replyStatus_success_iff {written : Mem} :
    ntSuccess (replyStatus turn written) = true ↔ ntSuccess (kphpFltSendMessage turn) = true ∧
      hasState turn.processState kphProcessStateMaximum = true ∧
      kphMsgValidate written = statusSuccess := by
  unfold replyStatus
  split
  · next hsend => simp [hsend]
  · next hsend =>
      have hsend := Bool.eq_true_of_not_eq_false hsend
      split
      · next hstate =>
          rw [hstate]
          exact iff_of_false (by decide) fun h => absurd h.2.1 (by decide)
      · next hstate =>
          have hstate := Bool.eq_true_of_not_eq_false hstate
          rw [ntSuccess_validate_iff]
          exact ⟨fun h => ⟨hsend, hstate, h⟩, fun h => h.2.2⟩

theorem takeReply_answers (reply : Mem) (h : turn.answers = true) :
    takeReply turn reply = turn.write reply ∧ kphMsgValidate (turn.write reply) = statusSuccess ∧
      headerMessageId (turn.write reply) ≠ kphMsgUnhandled := by
  simp only [ClientTurn.answers, Bool.and_eq_true, decide_eq_true_eq] at h
  obtain ⟨⟨⟨⟨⟨href, hsend⟩, hstate⟩, hlong⟩, hvalid⟩, hid⟩ := h
  obtain ⟨-, hid', hvalid'⟩ := write_header reply href hlong
  rw [← hvalid', ntSuccess_validate_iff] at hvalid
  have hstatus := replyStatus_success_iff.mpr ⟨hsend, hstate, hvalid⟩
  exact ⟨if_neg (by rw [hstatus]; decide), hvalid, hid' ▸ hid⟩

theorem takeReply_not_answers (hopen : OpenReply reply) (h : turn.answers = false) :
    OpenReply (takeReply turn reply) := by
  unfold takeReply
  split
  · exact unhandledReply_open _ _
  · next hstatus =>
      -- Everything was checked, so the only way not to answer is to leave the id as it is.
      obtain ⟨hsend, hstate, hvalid⟩ :=
        replyStatus_success_iff.mp (Bool.eq_true_of_not_eq_false hstatus)
      have href := reference_of_send hsend
      refine ⟨hvalid, ?_⟩
      by_cases hlong : 8 ≤ turn.written.length
      · obtain ⟨-, hid, hvalid'⟩ := write_header reply href hlong
        rw [hvalid', ← ntSuccess_validate_iff] at hvalid
        by_contra hne
        rw [hid] at hne
        have hans : turn.answers = true := by
          simp [ClientTurn.answers, href, hsend, hstate, hlong, hvalid, hne]
        exact absurd (h.symm.trans hans) (by decide)
      · refine unhandled_of_top hvalid ?_
        rw [write_of_reference href, Store.apply_of_not_covers]
        · exact headerMessageId_top hopen.2
        · rintro ⟨-, hlt⟩
          simp only [Nat.zero_add] at hlt
          omega

end

def ClientTurn.copyQueued (turn : ClientTurn) : Bool :=
  turn.allocateCopy && turn.acquireRundown && turn.allocateItem

theorem sendCopy_eq {π : Type} (message : Mem) (i : Nat) (client : CommsClient π)
    (turn : ClientTurn) :
    sendCopy message i client turn = if turn.copyQueued = true then
      .queued i client.process (load message 0 (headerSize message)) else .dropped i := by
  unfold sendCopy ClientTurn.copyQueued
  cases turn.allocateCopy with
  | false => simp
  | true =>
      cases turn.acquireRundown with
      | false => simp
      | true => cases turn.allocateItem with
        | false => simp
        | true => simp

/-! ## The loop, with the buffer reduced to whether it is open -/

section

variable {π : Type} [DecidableEq π]

def Offer.client : Offer π → Nat
  | .sent i => i
  | .queued i _ _ => i
  | .dropped i => i

/-- The client is asked for its reply if the loop is open, and answers. -/
def qualifies (informer : Option InformerSettings) (current : π)
    (c : CommsClient π × ClientTurn) : Bool :=
  c.1.enabled informer && decide (current ≠ c.1.process) && c.2.answers

def turnOffer (current : π) (message : Mem) (isOpen : Bool) (i : Nat)
    (c : CommsClient π × ClientTurn) : Offer π :=
  if isOpen = true ∧ current = c.1.process then sendCopy message i c.1 c.2 else .sent i

def offersFrom (informer : Option InformerSettings) (current : π) (message : Mem) :
    Bool → Nat → List (CommsClient π × ClientTurn) → List (Offer π)
  | _, _, [] => []
  | isOpen, i, c :: rest =>
      if c.1.enabled informer = true then
        turnOffer current message isOpen i c ::
          offersFrom informer current message (isOpen && !qualifies informer current c) (i + 1) rest
      else
        offersFrom informer current message isOpen (i + 1) rest

variable {informer : Option InformerSettings} {current : π} {message : Mem}

theorem sendLoop_closed {clients : List (CommsClient π × ClientTurn)} {i : Nat} {reply : Mem}
    (h : headerMessageId reply ≠ kphMsgUnhandled) :
    kphpCommsSendLoop informer current none message i clients (some reply) =
      (offersFrom informer current message false i clients, some reply) := by
  induction clients generalizing i with
  | nil => rfl
  | cons c rest ih =>
      obtain ⟨client, turn⟩ := c
      rw [kphpCommsSendLoop, offersFrom]
      cases hen : client.enabled informer with
      | false => simpa using ih
      | true => simp [h, ih, turnOffer]

def ClosedBy (informer : Option InformerSettings) (current : π)
    (clients : List (CommsClient π × ClientTurn)) (reply' : Mem) : Prop :=
  ∃ before c after, clients = before ++ c :: after ∧ qualifies informer current c = true ∧
    (∀ c' ∈ before, qualifies informer current c' = false) ∧
    ∃ reply, OpenReply reply ∧ reply' = c.2.write reply

theorem sendLoop_open (informer : Option InformerSettings) (current : π) (message : Mem)
    (clients : List (CommsClient π × ClientTurn)) (i : Nat) {reply : Mem} (h : OpenReply reply) :
    ∃ reply', kphpCommsSendLoop informer current none message i clients (some reply) =
        (offersFrom informer current message true i clients, some reply') ∧
      (OpenReply reply' ∧ (∀ c ∈ clients, qualifies informer current c = false) ∨
        ClosedBy informer current clients reply') := by
  induction clients generalizing i reply with
  | nil => exact ⟨reply, rfl, .inl ⟨h, fun _ hc => absurd hc List.not_mem_nil⟩⟩
  | cons c rest ih =>
      obtain ⟨client, turn⟩ := c
      rw [kphpCommsSendLoop, offersFrom]
      -- A client that does not answer leaves the loop open for the rest.
      have hskip : ∀ {r' : Mem}, qualifies informer current (client, turn) = false →
          (OpenReply r' ∧ (∀ c ∈ rest, qualifies informer current c = false) ∨
            ClosedBy informer current rest r') →
          (OpenReply r' ∧ (∀ c ∈ (client, turn) :: rest, qualifies informer current c = false) ∨
            ClosedBy informer current ((client, turn) :: rest) r') := by
        rintro r' hq (⟨ho, hrest⟩ | ⟨before, c, after, rfl, hc, hbefore, hr⟩)
        · refine .inl ⟨ho, fun c hc => ?_⟩
          rcases List.mem_cons.mp hc with rfl | hc
          · exact hq
          · exact hrest c hc
        · refine .inr ⟨(client, turn) :: before, c, after, rfl, hc, fun c' hc' => ?_, hr⟩
          rcases List.mem_cons.mp hc' with rfl | hc'
          · exact hq
          · exact hbefore c' hc'
      cases hen : client.enabled informer with
      | false =>
          have hq : qualifies informer current (client, turn) = false := by simp [qualifies, hen]
          obtain ⟨reply', hrun, hend⟩ := ih (i + 1) h
          exact ⟨reply', by simpa using hrun, hskip hq hend⟩
      | true =>
          by_cases hself : current = client.process
          · have hq : qualifies informer current (client, turn) = false := by
              simp [qualifies, hself]
            obtain ⟨reply', hrun, hend⟩ := ih (i + 1) h
            refine ⟨reply', ?_, hskip hq hend⟩
            subst hself
            simp [h.2, turnOffer, hq, hrun]
          · cases hans : turn.answers with
            | false =>
                have hq : qualifies informer current (client, turn) = false := by
                  simp [qualifies, hans]
                obtain ⟨reply', hrun, hend⟩ := ih (i + 1) (takeReply_not_answers h hans)
                refine ⟨reply', ?_, hskip hq hend⟩
                simp [h.2, hself, turnOffer, hq, hrun]
            | true =>
                have hq : qualifies informer current (client, turn) = true := by
                  simp [qualifies, hans, hen, hself]
                obtain ⟨htake, -, hid⟩ := takeReply_answers reply hans
                refine ⟨turn.write reply, ?_, .inr ⟨[], (client, turn), rest, rfl, hq,
                  fun _ hc => absurd hc List.not_mem_nil, reply, h, rfl⟩⟩
                simp [h.2, hself, turnOffer, hq, htake, sendLoop_closed hid]

/-! ## The offers -/

theorem client_turnOffer (isOpen : Bool) (i : Nat) (c : CommsClient π × ClientTurn) :
    (turnOffer current message isOpen i c).client = i := by
  unfold turnOffer sendCopy
  repeat' split
  all_goals rfl

def enabledPlaces (informer : Option InformerSettings) (i : Nat)
    (clients : List (CommsClient π × ClientTurn)) : List Nat :=
  ((clients.zipIdx i).filter fun c => c.1.1.enabled informer).map Prod.snd

theorem map_client_offersFrom (isOpen : Bool) (i : Nat)
    (clients : List (CommsClient π × ClientTurn)) :
    (offersFrom informer current message isOpen i clients).map Offer.client =
      enabledPlaces informer i clients := by
  induction clients generalizing isOpen i with
  | nil => rfl
  | cons c rest ih =>
      rw [offersFrom, enabledPlaces, List.zipIdx_cons]
      cases hen : c.1.enabled informer with
      | false => simpa [hen, enabledPlaces] using ih isOpen (i + 1)
      | true => simp [hen, ih, enabledPlaces, client_turnOffer]

/-- No client before this place answers. -/
def couldReply (informer : Option InformerSettings) (current : π)
    (clients : List (CommsClient π × ClientTurn)) (i : Nat) : Bool :=
  (clients.take i).all fun c => !qualifies informer current c

theorem mem_offersFrom {isOpen : Bool} {k : Nat} {clients : List (CommsClient π × ClientTurn)}
    {o : Offer π} :
    o ∈ offersFrom informer current message isOpen k clients ↔
      ∃ i c, clients[i]? = some c ∧ c.1.enabled informer = true ∧
        o = turnOffer current message (isOpen && couldReply informer current clients i) (k + i) c := by
  induction clients generalizing isOpen k with
  | nil => simp [offersFrom]
  | cons c rest ih =>
      rw [offersFrom]
      constructor
      · intro ho
        cases hen : c.1.enabled informer with
        | false =>
            rw [if_neg (by simp [hen]), ih] at ho
            obtain ⟨i, c', hi, hen', rfl⟩ := ho
            have hq : qualifies informer current c = false := by simp [qualifies, hen]
            refine ⟨i + 1, c', hi, hen', ?_⟩
            simp [couldReply, hq, Nat.add_assoc, Nat.add_comm 1]
        | true =>
            rw [if_pos hen] at ho
            rcases List.mem_cons.mp ho with rfl | ho
            · exact ⟨0, c, rfl, hen, by simp [couldReply]⟩
            · obtain ⟨i, c', hi, hen', rfl⟩ := ih.mp ho
              refine ⟨i + 1, c', hi, hen', ?_⟩
              simp [couldReply, Nat.add_assoc, Nat.add_comm 1, Bool.and_assoc]
      · rintro ⟨i, c', hi, hen', rfl⟩
        cases i with
        | zero =>
            obtain rfl : c = c' := Option.some.inj hi
            rw [if_pos hen']
            exact List.mem_cons.mpr (.inl (by simp [couldReply]))
        | succ i =>
            have hi : rest[i]? = some c' := hi
            cases hen : c.1.enabled informer with
            | false =>
                have hq : qualifies informer current c = false := by simp [qualifies, hen]
                rw [if_neg (by simp), ih]
                refine ⟨i, c', hi, hen', ?_⟩
                simp [couldReply, hq, Nat.add_assoc, Nat.add_comm 1]
            | true =>
                rw [if_pos rfl]
                refine List.mem_cons.mpr (.inr (ih.mpr ⟨i, c', hi, hen', ?_⟩))
                simp [couldReply, Nat.add_assoc, Nat.add_comm 1, Bool.and_assoc]

/-! ## What the design asks for -/

/-- The offer gets to the client at this place: it was sent to it, or a copy waits for its
process. -/
def Offer.Reaches (i : Nat) (process : π) : Offer π → Prop
  | .sent j => j = i
  | .queued _ p _ => p = process
  | .dropped _ => False

/-- Every enabled client is offered the message once, in the order of connection: it is
sent, or a copy of it is queued if the client is the caller and could still reply. -/
structure OffersSound (informer : Option InformerSettings) (current : π) (message : Mem)
    (clients : List (CommsClient π × ClientTurn)) (offers : List (Offer π)) : Prop where
  order : offers.map Offer.client = enabledPlaces informer 0 clients
  kind : ∀ o ∈ offers, ∃ client turn, clients[o.client]? = some (client, turn) ∧
    if couldReply informer current clients o.client = true ∧ current = client.process then
      o = if turn.copyQueued = true then
        .queued o.client client.process (load message 0 (headerSize message)) else .dropped o.client
    else o = .sent o.client
  atMostOnce : ∀ i client turn, clients[i]? = some (client, turn) →
    client.enabled informer = true → ∀ o ∈ offers, ∀ o' ∈ offers,
      o.Reaches i client.process → o'.Reaches i client.process → o = o'
  offered : ∀ i client turn, clients[i]? = some (client, turn) →
    client.enabled informer = true → .dropped i ∉ offers →
      ∃ o ∈ offers, o.Reaches i client.process

def FirstAnswer (informer : Option InformerSettings) (current : π)
    (clients : List (CommsClient π × ClientTurn)) (i : Nat) (c : CommsClient π × ClientTurn) :
    Prop :=
  clients[i]? = some c ∧ qualifies informer current c = true ∧
    couldReply informer current clients i = true

/-- The reply validates; it is unhandled, or every byte it declares is one that the first
client to answer wrote. -/
structure ReplySound (informer : Option InformerSettings) (current : π)
    (clients : List (CommsClient π × ClientTurn)) (reply : Mem) : Prop where
  valid : kphMsgValidate reply = statusSuccess
  source : headerMessageId reply = kphMsgUnhandled ∨ ∃ i c,
    FirstAnswer informer current clients i c ∧
      ∀ a, a < headerSize reply → c.2.written[a]? = some (reply a)

/-- What a call with a reply buffer leaves is as it should be. -/
def SendSound (map : List (Option InformerSettings)) (current : π) (message : Mem)
    (clients : List (CommsClient π × ClientTurn))
    (r : NtStatus × List (Offer π) × Option Mem) : Prop :=
  let informer := kphInformerForMessageId map (headerMessageId message)
  OffersSound informer current message clients r.2.1 ∧
    ∃ reply, r.2.2 = some reply ∧ ReplySound informer current clients reply

/-! ## When it is -/

/-- The first answer is as long as it declares, and no copy is queued for the caller's
process while the message gets to another of its clients. -/
structure SendCondition (informer : Option InformerSettings) (current : π)
    (clients : List (CommsClient π × ClientTurn)) : Prop where
  whole : ∀ i c, FirstAnswer informer current clients i c →
    headerSize (replyMem c.2.written) ≤ c.2.written.length
  single : ∀ i j ci cj, clients[i]? = some ci → clients[j]? = some cj → i ≠ j →
    ci.1.enabled informer = true → cj.1.enabled informer = true →
    current = ci.1.process → current = cj.1.process →
    couldReply informer current clients i = true → ci.2.copyQueued = true →
    couldReply informer current clients j = true ∧ cj.2.copyQueued = false

variable {clients : List (CommsClient π × ClientTurn)}

theorem turnOffer_async {isOpen : Bool} {i : Nat} {c : CommsClient π × ClientTurn}
    (h : isOpen = true ∧ current = c.1.process) :
    turnOffer current message isOpen i c = if c.2.copyQueued = true then
      .queued i c.1.process (load message 0 (headerSize message)) else .dropped i :=
  (if_pos h).trans (sendCopy_eq ..)

theorem reaches_turnOffer {isOpen : Bool} {i j : Nat} {p : π} {c : CommsClient π × ClientTurn}
    (h : (turnOffer current message isOpen j c).Reaches i p) :
    (j = i ∧ ¬ (isOpen = true ∧ current = c.1.process)) ∨
      (isOpen = true ∧ current = c.1.process ∧ c.1.process = p ∧ c.2.copyQueued = true) := by
  by_cases hasync : isOpen = true ∧ current = c.1.process
  · rw [turnOffer_async hasync] at h
    split at h
    · next hqueued => exact .inr ⟨hasync.1, hasync.2, h, hqueued⟩
    · exact h.elim
  · rw [turnOffer, if_neg hasync] at h
    exact .inl ⟨h, hasync⟩

theorem mem_offers {o : Offer π} :
    o ∈ offersFrom informer current message true 0 clients ↔
      ∃ i c, clients[i]? = some c ∧ c.1.enabled informer = true ∧
        o = turnOffer current message (couldReply informer current clients i) i c := by
  simp [mem_offersFrom]

theorem offersSound_of_single (h : ∀ i j ci cj, clients[i]? = some ci → clients[j]? = some cj →
      i ≠ j → ci.1.enabled informer = true → cj.1.enabled informer = true →
      current = ci.1.process → current = cj.1.process →
      couldReply informer current clients i = true → ci.2.copyQueued = true →
      couldReply informer current clients j = true ∧ cj.2.copyQueued = false) :
    OffersSound informer current message clients
      (offersFrom informer current message true 0 clients) := by
  refine ⟨map_client_offersFrom .., fun o ho => ?_, ?_, ?_⟩
  · obtain ⟨i, c, hi, -, rfl⟩ := mem_offers.mp ho
    rw [client_turnOffer]
    refine ⟨c.1, c.2, hi, ?_⟩
    split
    · next hasync => exact turnOffer_async hasync
    · next hasync => exact if_neg hasync
  · intro i client turn hi hen o ho o' ho' hr hr'
    obtain ⟨j, cj, hj, hej, rfl⟩ := mem_offers.mp ho
    obtain ⟨k, ck, hk, hek, rfl⟩ := mem_offers.mp ho'
    -- A copy for the process of the client and a message sent to it exclude each other.
    have hmix : ∀ {j k : Nat} {cj ck : CommsClient π × ClientTurn}, clients[j]? = some cj →
        clients[k]? = some ck → cj.1.enabled informer = true → ck.1.enabled informer = true →
        j = i → ¬ (couldReply informer current clients j = true ∧ current = cj.1.process) →
        couldReply informer current clients k = true → current = ck.1.process →
        ck.1.process = client.process → ck.2.copyQueued = true → j = k := by
      intro j k cj ck hj hk hej hek hji hsync hopen hself hproc hqueued
      by_contra hne
      subst hji
      obtain rfl : cj = (client, turn) := Option.some.inj (hj.symm.trans hi)
      exact hsync ⟨(h k j ck _ hk hj (Ne.symm hne) hek hej hself (hself.trans hproc) hopen
        hqueued).1, hself.trans hproc⟩
    have hjk : j = k := by
      rcases reaches_turnOffer hr with ⟨hji, hsync⟩ | ⟨hopen, hself, hproc, hqueued⟩
      · rcases reaches_turnOffer hr' with ⟨hki, -⟩ | ⟨hopen', hself', hproc', hqueued'⟩
        · exact hji.trans hki.symm
        · exact hmix hj hk hej hek hji hsync hopen' hself' hproc' hqueued'
      · rcases reaches_turnOffer hr' with ⟨hki, hsync'⟩ | ⟨hopen', hself', hproc', hqueued'⟩
        · exact (hmix hk hj hek hej hki hsync' hopen hself hproc hqueued).symm
        · by_contra hne
          have hno := (h j k cj ck hj hk hne hej hek hself hself' hopen hqueued).2
          exact absurd (hno.symm.trans hqueued') (by decide)
    subst hjk
    rw [Option.some.inj (hj.symm.trans hk)]
  · intro i client turn hi hen hdropped
    have hmem : turnOffer current message (couldReply informer current clients i) i (client, turn) ∈
        offersFrom informer current message true 0 clients :=
      mem_offers.mpr ⟨i, (client, turn), hi, hen, rfl⟩
    refine ⟨_, hmem, ?_⟩
    by_cases hasync : couldReply informer current clients i = true ∧ current = client.process
    · rw [turnOffer_async hasync] at hmem ⊢
      split
      · exact rfl
      · next hno =>
          rw [if_neg hno] at hmem
          exact absurd hmem hdropped
    · rw [turnOffer, if_neg hasync]
      exact rfl

theorem single_of_offersSound (h : OffersSound informer current message clients
      (offersFrom informer current message true 0 clients)) {i j : Nat}
    {ci cj : CommsClient π × ClientTurn} (hi : clients[i]? = some ci) (hj : clients[j]? = some cj)
    (hne : i ≠ j) (hei : ci.1.enabled informer = true) (hej : cj.1.enabled informer = true)
    (hself : current = ci.1.process) (hself' : current = cj.1.process)
    (hopen : couldReply informer current clients i = true) (hqueued : ci.2.copyQueued = true) :
    couldReply informer current clients j = true ∧ cj.2.copyQueued = false := by
  by_contra hno
  have hmem : ∀ {k : Nat} {c : CommsClient π × ClientTurn}, clients[k]? = some c →
      c.1.enabled informer = true →
      turnOffer current message (couldReply informer current clients k) k c ∈
        offersFrom informer current message true 0 clients :=
    fun hk hek => mem_offers.mpr ⟨_, _, hk, hek, rfl⟩
  have hr : (turnOffer current message (couldReply informer current clients i) i ci).Reaches j
      cj.1.process := by
    rw [turnOffer_async ⟨hopen, hself⟩, if_pos hqueued]
    exact hself.symm.trans hself'
  have hr' : (turnOffer current message (couldReply informer current clients j) j cj).Reaches j
      cj.1.process := by
    by_cases hasync : couldReply informer current clients j = true ∧ current = cj.1.process
    · rw [turnOffer_async hasync]
      split
      · exact rfl
      · next hnot => exact hno ⟨hasync.1, Bool.eq_false_of_not_eq_true hnot⟩
    · rw [turnOffer, if_neg hasync]
      exact rfl
  have heq := congrArg Offer.client
    (h.atMostOnce j cj.1 cj.2 hj hej _ (hmem hi hei) _ (hmem hj hej) hr hr')
  rw [client_turnOffer, client_turnOffer] at heq
  exact hne heq

/-! ## The reply -/

theorem couldReply_before {i j : Nat} {c : CommsClient π × ClientTurn}
    (h : couldReply informer current clients i = true) (hj : clients[j]? = some c) (hlt : j < i) :
    qualifies informer current c = false := by
  have hmem : c ∈ clients.take i := by
    refine List.mem_of_getElem? (i := j) ?_
    rw [List.getElem?_take_of_lt hlt, hj]
  simpa using List.all_eq_true.mp h c hmem

theorem FirstAnswer.unique {i j : Nat} {ci cj : CommsClient π × ClientTurn}
    (hi : FirstAnswer informer current clients i ci)
    (hj : FirstAnswer informer current clients j cj) : ci = cj := by
  rcases Nat.lt_trichotomy i j with hlt | rfl | hlt
  · exact absurd ((couldReply_before hj.2.2 hi.1 hlt).symm.trans hi.2.1) (by decide)
  · exact Option.some.inj (hi.1.symm.trans hj.1)
  · exact absurd ((couldReply_before hi.2.2 hj.1 hlt).symm.trans hj.2.1) (by decide)

theorem ClosedBy.firstAnswer {reply' : Mem} (h : ClosedBy informer current clients reply') :
    ∃ i c reply, FirstAnswer informer current clients i c ∧ reply' = c.2.write reply := by
  obtain ⟨before, c, after, rfl, hc, hbefore, reply, -, rfl⟩ := h
  refine ⟨before.length, c, reply, ⟨by simp, hc, ?_⟩, rfl⟩
  rw [couldReply, List.take_left, List.all_eq_true]
  intro c' hc'
  simp [hbefore c' hc']

theorem replySound_write_iff {i : Nat} {c : CommsClient π × ClientTurn} {reply : Mem}
    (h : FirstAnswer informer current clients i c) :
    ReplySound informer current clients (c.2.write reply) ↔
      headerSize (replyMem c.2.written) ≤ c.2.written.length := by
  have hans : c.2.answers = true := (Bool.and_eq_true_iff.mp h.2.1).2
  obtain ⟨-, hvalid, hid⟩ := takeReply_answers reply hans
  simp only [ClientTurn.answers, Bool.and_eq_true, decide_eq_true_eq] at hans
  obtain ⟨⟨⟨⟨⟨href, -⟩, -⟩, hlong⟩, -⟩, -⟩ := hans
  obtain ⟨hsize, -, -⟩ := write_header reply href hlong
  constructor
  · rintro ⟨-, hun | ⟨j, c', hj, hbytes⟩⟩
    · exact absurd hun hid
    · by_contra hlt
      rw [h.unique hj] at hsize hlt hbytes
      have hnone := hbytes c'.2.written.length (by omega)
      rw [List.getElem?_eq_none (Nat.le_refl _)] at hnone
      cases hnone
  · intro hle
    refine ⟨hvalid, .inr ⟨i, c, h, fun a ha => ?_⟩⟩
    have hlt : a < c.2.written.length := by omega
    rw [write_of_reference href, apply_written hlt, List.getD_eq_getElem _ _ hlt,
      List.getElem?_eq_getElem hlt]

theorem sendMessage_eq (map : List (Option InformerSettings)) (current : π) (message : Mem)
    (clients : List (CommsClient π × ClientTurn)) (reply : Mem) (timeStamp : UInt64) :
    (kphpCommsSendMessage map current none message clients (some reply) timeStamp).2 =
      kphpCommsSendLoop (kphInformerForMessageId map (headerMessageId message)) current none
        message 0 clients (some (unhandledReply timeStamp reply)) := by
  unfold kphpCommsSendMessage
  dsimp only
  split
  · next hnil => rw [hnil]; rfl
  · rfl

theorem SendSound.condition {map : List (Option InformerSettings)} {reply : Mem}
    {timeStamp : UInt64} (h : SendSound map current message clients
      (kphpCommsSendMessage map current none message clients (some reply) timeStamp)) :
    SendCondition (kphInformerForMessageId map (headerMessageId message)) current clients := by
  unfold SendSound at h
  rw [sendMessage_eq] at h
  obtain ⟨reply', hrun, hend⟩ := sendLoop_open
    (kphInformerForMessageId map (headerMessageId message)) current message clients 0
    (unhandledReply_open timeStamp reply)
  rw [hrun] at h
  obtain ⟨hoffers, r, hr, hsound⟩ := h
  obtain rfl := Option.some.inj hr
  refine ⟨fun i c hfirst => ?_, fun i j ci cj hi hj hne hei hej hself hself' hopen hqueued =>
    single_of_offersSound hoffers hi hj hne hei hej hself hself' hopen hqueued⟩
  rcases hend with ⟨-, hnone⟩ | hclosed
  · have hno := hnone c (List.mem_of_getElem? hfirst.1)
    exact absurd (hno.symm.trans hfirst.2.1) (by decide)
  · obtain ⟨j, c', r, hfirst', rfl⟩ := hclosed.firstAnswer
    rw [hfirst.unique hfirst']
    exact (replySound_write_iff hfirst').mp hsound

theorem SendCondition.sound {map : List (Option InformerSettings)}
    (h : SendCondition (kphInformerForMessageId map (headerMessageId message)) current clients)
    (reply : Mem) (timeStamp : UInt64) : SendSound map current message clients
      (kphpCommsSendMessage map current none message clients (some reply) timeStamp) := by
  unfold SendSound
  rw [sendMessage_eq]
  obtain ⟨reply', hrun, hend⟩ := sendLoop_open
    (kphInformerForMessageId map (headerMessageId message)) current message clients 0
    (unhandledReply_open timeStamp reply)
  rw [hrun]
  refine ⟨offersSound_of_single h.single, reply', rfl, ?_⟩
  rcases hend with ⟨hopen, -⟩ | hclosed
  · exact ⟨hopen.1, .inl hopen.2⟩
  · obtain ⟨j, c', r, hfirst, rfl⟩ := hclosed.firstAnswer
    exact (replySound_write_iff hfirst).mpr (h.whole j c' hfirst)

end

/-- A call with a reply buffer offers the message to every enabled client once, and
returns nothing but the first trusted, valid answer, exactly when that answer is as long
as it declares and no copy meant for one connection of the caller reaches another. -/
theorem sendSound_iff {π : Type} [DecidableEq π] (map : List (Option InformerSettings))
    (current : π) (message : Mem) (clients : List (CommsClient π × ClientTurn)) (reply : Mem)
    (timeStamp : UInt64) :
    SendSound map current message clients
        (kphpCommsSendMessage map current none message clients (some reply) timeStamp) ↔
      SendCondition (kphInformerForMessageId map (headerMessageId message)) current clients :=
  ⟨SendSound.condition, fun h => h.sound reply timeStamp⟩

/-- The turn of a client in the given state that sends these bytes. -/
def replyingTurn (processState : ProcessState) (written : List UInt8)
    (h : written.length ≤ sizeofMessage) : ClientTurn where
  filterReference := statusSuccess
  sendMessage := statusSuccess
  written := written
  written_le := h
  processState := processState
  allocateCopy := true
  acquireRundown := true
  allocateItem := true
  timeStamp := 0

/-- An untrusted client sends a message of 357 bytes, and a trusted one the header of such
a message and no more. -/
def shortReplyClients : List (CommsClient Nat × ClientTurn) :=
  [(⟨1, 0, 0, 0⟩, replyingTurn 0
    ([4, 0, 101, 1, 1, 0, 0, 0] ++ List.replicate 348 0 ++ [65]) (by decide +kernel)),
   (⟨2, 0, 0, 0⟩, replyingTurn kphProcessStateMaximum [4, 0, 101, 1, 1, 0, 0, 0] (by decide))]

/-- The reply has the header of the trusted client and the last byte of the other. -/
theorem sendMessage_short_reply :
    ¬ SendSound [] 0 (fun _ => 0) shortReplyClients
      (kphpCommsSendMessage [] 0 none (fun _ => 0) shortReplyClients (some fun _ => 0) 0) := by
  intro h
  have hle := h.condition.whole 1 _ ⟨rfl, by decide, by decide⟩
  exact absurd hle (by decide)

end SystemInformer.Driver
