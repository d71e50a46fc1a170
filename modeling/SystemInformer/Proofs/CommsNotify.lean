import SystemInformer.Driver.CommsNotify
import SystemInformer.Proofs.MsgDynTable

/-!
# Which client requests stay inside their buffer

The callback captures `KPH_MESSAGE_MIN_SIZE` bytes, which the first test of the
arguments has found supplied, and then as many more as the captured header declares.
That number is compared with the supplied length only on the way out. So the reads leave
the client's buffer exactly when a message that passes `KphMsgValidate` declares more
than it brings and the rest of it can be probed; everything else about a request, the
table, the state, the single copy, holds of every one.

What the client does to its memory in the meantime is harmless: each byte of the message
is read once, and the length of the second capture comes from the first.
-/

namespace SystemInformer.Driver

open Bytes KphLib

/-! ## The captures -/

theorem getD_captured {client : Nat → Mem} {t addr n i : Nat} (h : i < n) :
    (captured client t addr n).getD i 0 = client (t + i) (addr + i) := by
  rw [captured, List.getD_eq_getElem _ _ (by simpa using h)]
  simp

theorem apply_captured {client : Nat → Mem} {base t addr n a : Nat} {m : Mem} (hlo : base ≤ a)
    (hhi : a < base + n) :
    (Store.mk base (captured client t addr n)).apply m a =
      client (t + (a - base)) (addr + (a - base)) := by
  have hc : (Store.mk base (captured client t addr n)).covers a :=
    ⟨hlo, by simpa [captured] using hhi⟩
  rw [Store.apply, if_pos hc]
  exact getD_captured (Nat.sub_lt_left_of_lt_add hlo hhi)

section

variable {client : Nat → Mem} {args : NotifyArgs} {msg allocated : Mem} {i : Nat}

theorem capturedHead_apply (h : i < messageMinSize) :
    capturedHead client args allocated i = client i (args.inputBuffer.toNat + i) := by
  rw [capturedHead, apply_captured (Nat.zero_le _) (by omega)]
  simp

theorem capturedTail_head (h : i < messageMinSize) : capturedTail client args msg i = msg i :=
  Store.apply_of_not_covers fun hc => Nat.not_le_of_lt h hc.1

theorem capturedTail_apply (hlo : messageMinSize ≤ i) (hhi : i < headerSize msg) :
    capturedTail client args msg i = client i (args.inputBuffer.toNat + i) := by
  have h : messageMinSize + (i - messageMinSize) = i := by omega
  rw [capturedTail, apply_captured hlo (by omega), Nat.add_assoc, h]

end

theorem capturedHead_header (client : Nat → Mem) (args : NotifyArgs) (allocated allocated' : Mem) :
    headerSize (capturedHead client args allocated) =
        headerSize (capturedHead client args allocated') ∧
      kphMsgValidate (capturedHead client args allocated) =
        kphMsgValidate (capturedHead client args allocated') := by
  have hagree : ∀ i, i < 8 →
      capturedHead client args allocated i = capturedHead client args allocated' i := by
    intro i hi
    have hmin : i < messageMinSize := Nat.lt_trans hi (by decide)
    rw [capturedHead_apply hmin, capturedHead_apply hmin]
  obtain ⟨hsize, -, hvalid⟩ := header_congr hagree
  exact ⟨hsize, hvalid⟩

/-! ## The table -/

theorem kphCommsMessageHandlers_id {i : Nat} {handler : MessageHandler}
    (h : kphCommsMessageHandlers[i]? = some handler) : handler.messageId.value = i := by
  have hall : kphCommsMessageHandlers.map (·.messageId.value) =
      List.range kphCommsMessageHandlers.length := by decide
  have hi := congrArg (·[i]?) hall
  obtain ⟨hlt, -⟩ := List.getElem?_eq_some_iff.mp h
  simpa [h, List.getElem?_range hlt] using hi

/-! ## A confined request -/

/-- The call was admitted: its message passed the checks, every byte it declares was
supplied and is the client's, and the state check saw the message the handler got. -/
structure CallAdmitted (client : Nat → Mem) (args : NotifyArgs) (processState : ProcessState)
    (call : HandlerCall) : Prop where
  valid : ntSuccess (kphMsgValidate call.message) = true
  handler : call.handler ∈ kphCommsMessageHandlers ∧
    call.handler.messageId.value = headerMessageId call.message ∧
    call.handler.messageId ≠ .invalidKphMsg
  supplied : headerSize call.message ≤ args.inputBufferLength.toNat
  copied : ∀ i, i < headerSize call.message →
    call.message i = client i (args.inputBuffer.toNat + i)
  required : call.handler.requiredState.map (· call.checked) = some call.requiredState
  sender : call.processState = processState
  state : hasState call.processState call.requiredState = true
  sameCopy : call.checked = call.message

def NotifyArgs.Inside (args : NotifyArgs) (e : ClientAccess) : Prop :=
  ∀ a, e.covers a → args.inputBuffer.toNat ≤ a ∧
    a < args.inputBuffer.toNat + args.inputBufferLength.toNat

structure ConfinedRequest (client : Nat → Mem) (args : NotifyArgs) (processState : ProcessState)
    (n : Notification) : Prop where
  inside : ∀ e ∈ n.accesses, args.Inside e
  once : n.calls.length ≤ 1
  admitted : ∀ call ∈ n.calls, CallAdmitted client args processState call

section

variable {space : AddressSpace} {client : Nat → Mem} {args : NotifyArgs} {env : NotifyEnv}
  {accesses : List ClientAccess} {msg : Mem}

theorem accessed_le (fault : Option CopyFault) (n : Nat) : accessed fault n ≤ n := by
  unfold accessed
  split
  · exact Nat.le_refl _
  · exact Nat.min_le_right _ _

theorem Inside.read (off : Nat) {len : Nat} (h : off + len ≤ args.inputBufferLength.toNat) :
    args.Inside (.read (args.inputBuffer.toNat + off) len) := by
  rintro a ⟨hlo, hhi⟩
  exact ⟨by omega, by omega⟩

theorem confinedRequest_failed {status : NtStatus} {processState : ProcessState}
    (h : ∀ e ∈ accesses, args.Inside e) :
    ConfinedRequest client args processState (.failed status accesses) :=
  ⟨h, Nat.zero_le _, fun _ hc => absurd hc List.not_mem_nil⟩

theorem notifyReply_inside : ∀ e ∈ (notifyReply space args env msg).2, args.Inside e := by
  intro e he
  unfold notifyReply at he
  split at he
  · cases he
  · next hlen =>
      split at he
      · cases he
      · rw [List.mem_singleton.mp he]
        rintro a ⟨hlo, hhi⟩
        have hle := accessed_le env.writeFault (headerSize msg)
        exact ⟨hlo, by omega⟩

theorem notifyHandle_confined (haccess : ∀ e ∈ accesses, args.Inside e)
    (hvalid : ntSuccess (kphMsgValidate msg) = true)
    (hsupplied : headerSize msg ≤ args.inputBufferLength.toNat)
    (hcopied : ∀ i, i < headerSize msg → msg i = client i (args.inputBuffer.toNat + i)) :
    ConfinedRequest client args env.processState
      (notifyHandle space args env accesses msg) := by
  unfold notifyHandle
  split
  · exact confinedRequest_failed haccess
  · next hid =>
      split
      · exact confinedRequest_failed haccess
      · exact confinedRequest_failed haccess
      · next messageId requiredState hentry =>
          have hvalue := kphCommsMessageHandlers_id hentry
          have hcall (h : hasState env.processState (requiredState msg) = true) :
              CallAdmitted client args env.processState
                ⟨⟨messageId, some requiredState⟩, msg, requiredState msg, env.processState, msg⟩ := by
            refine ⟨hvalid, ⟨List.mem_of_getElem? hentry, hvalue, ?_⟩, hsupplied, hcopied, rfl, rfl,
              h, rfl⟩
            rintro rfl
            exact hid (Or.inl (Nat.le_of_eq hvalue.symm))
          dsimp only
          split
          · exact ⟨haccess, Nat.zero_le _, fun _ hc => absurd hc List.not_mem_nil⟩
          · next hstate =>
              have hcall := hcall (Bool.eq_true_of_not_eq_false hstate)
              split
              · exact ⟨haccess, Nat.le_refl _, fun c hc => List.mem_singleton.mp hc ▸ hcall⟩
              · refine ⟨fun e he => ?_, Nat.le_refl _, fun c hc => List.mem_singleton.mp hc ▸ hcall⟩
                rcases List.mem_append.mp he with he | he
                · exact haccess e he
                · exact notifyReply_inside e he

theorem mem_notifyHandle_accesses {e : ClientAccess} (h : e ∈ accesses) :
    e ∈ (notifyHandle space args env accesses msg).accesses := by
  unfold notifyHandle
  split
  · exact h
  · split
    · exact h
    · exact h
    · dsimp only
      split
      · exact h
      · split
        · exact h
        · exact List.mem_append_left _ h

theorem NotifyArgs.minSize_le (h : args.valid = true) :
    messageMinSize ≤ args.inputBufferLength.toNat := by
  simp only [valid, Bool.and_eq_true, decide_eq_true_eq] at h
  exact h.1.1.1.2

theorem headRead_inside (h : args.valid = true) (fault : Option CopyFault) :
    ∀ e ∈ [ClientAccess.read args.inputBuffer.toNat (accessed fault messageMinSize)],
      args.Inside e := by
  intro e he
  rw [List.mem_singleton.mp he]
  have hle := accessed_le fault messageMinSize
  have hmin := NotifyArgs.minSize_le h
  exact Inside.read 0 (by omega)

end

/-! ## Messages that declare more than they bring -/

/-- The message declares more bytes than were supplied, and the callback goes on to
capture them. -/
def NotifyArgs.OverDeclares (space : AddressSpace) (client : Nat → Mem) (args : NotifyArgs) :
    Prop :=
  let head := capturedHead client args fun _ => 0
  args.expectedCaller = true ∧ args.valid = true ∧
    probeForRead space (probeOutputBytes args.inputBuffer messageMinSize) = none ∧
    ntSuccess (kphMsgValidate head) = true ∧
    args.inputBufferLength.toNat < headerSize head ∧
    probeForRead space ⟨args.inputBuffer.toNat + messageMinSize,
      headerSize head - messageMinSize, 1⟩ = none

section

variable {space : AddressSpace} {client : Nat → Mem} {args : NotifyArgs} {env : NotifyEnv}

theorem notifyTail_confined {accesses : List ClientAccess} {allocated : Mem}
    (haccess : ∀ e ∈ accesses, args.Inside e)
    (hvalid : ntSuccess (kphMsgValidate (capturedHead client args allocated)) = true)
    (hsupplied : probeForRead space ⟨args.inputBuffer.toNat + messageMinSize,
        headerSize (capturedHead client args allocated) - messageMinSize, 1⟩ = none →
      headerSize (capturedHead client args allocated) ≤ args.inputBufferLength.toNat)
    (hmin : messageMinSize ≤ args.inputBufferLength.toNat) :
    ConfinedRequest client args env.processState
      (notifyTail space client args env accesses (capturedHead client args allocated)) := by
  generalize hmsg : capturedHead client args allocated = msg at hvalid hsupplied ⊢
  have hhead : ∀ i, i < messageMinSize → msg i = client i (args.inputBuffer.toNat + i) :=
    fun i hi => hmsg ▸ capturedHead_apply hi
  unfold notifyTail
  split
  · next hmore =>
      dsimp only
      split
      · exact confinedRequest_failed haccess
      · next hprobe =>
          have hsize := hsupplied hprobe
          have haccess' : ∀ e ∈ accesses ++ [.read (args.inputBuffer.toNat + messageMinSize)
              (accessed env.tailFault (headerSize msg - messageMinSize))], args.Inside e := by
            intro e he
            rcases List.mem_append.mp he with he | he
            · exact haccess e he
            · rw [List.mem_singleton.mp he]
              have hle := accessed_le env.tailFault (headerSize msg - messageMinSize)
              exact Inside.read _ (by omega)
          split
          · exact confinedRequest_failed haccess'
          · have hagree : ∀ i, i < 8 → capturedTail client args msg i = msg i :=
              fun i hi => capturedTail_head (Nat.lt_trans hi (by decide))
            obtain ⟨hsize', -, hvalid'⟩ := header_congr hagree
            refine notifyHandle_confined haccess' (hvalid' ▸ hvalid) (hsize' ▸ hsize) ?_
            intro i hi
            rw [hsize'] at hi
            by_cases hi' : i < messageMinSize
            · rw [capturedTail_head hi', hhead i hi']
            · exact capturedTail_apply (Nat.not_lt.mp hi') hi
  · next hmore =>
      exact notifyHandle_confined haccess hvalid (by omega) fun i hi => hhead i (by omega)

theorem notifyCallback_confined (h : ¬ args.OverDeclares space client) :
    ConfinedRequest client args env.processState
      (kphpCommsMessageNotifyCallback space client args env) := by
  have hnone : ∀ e ∈ ([] : List ClientAccess), args.Inside e :=
    fun _ he => absurd he List.not_mem_nil
  unfold kphpCommsMessageNotifyCallback
  split
  · exact confinedRequest_failed hnone
  · next hcaller =>
      split
      · exact confinedRequest_failed hnone
      · next hargs =>
          have hargs := Bool.eq_true_of_not_eq_false hargs
          split
          · exact confinedRequest_failed hnone
          · split
            · exact confinedRequest_failed hnone
            · next hprobe =>
                dsimp only
                split
                · exact confinedRequest_failed (headRead_inside hargs _)
                · split
                  · exact confinedRequest_failed (headRead_inside hargs _)
                  · next hvalid =>
                      have hvalid := Bool.eq_true_of_not_eq_false hvalid
                      obtain ⟨hsize, hverdict⟩ :=
                        capturedHead_header client args env.allocated fun _ => 0
                      refine notifyTail_confined (headRead_inside hargs _) hvalid ?_
                        (NotifyArgs.minSize_le hargs)
                      intro htail
                      rw [hsize] at htail ⊢
                      exact Nat.not_lt.mp fun hlt => h ⟨Bool.eq_true_of_not_eq_false hcaller,
                        hargs, hprobe, hverdict ▸ hvalid, hlt, htail⟩

def willingNotifyEnv : NotifyEnv where
  allocate := true
  allocated := fun _ => 0
  headFault := none
  tailFault := none
  writeFault := none
  processState := kphProcessStateMaximum
  handle := fun _ msg => (statusSuccess, msg)

theorem notifyCallback_reads_past (h : args.OverDeclares space client) :
    ∃ e ∈ (kphpCommsMessageNotifyCallback space client args willingNotifyEnv).accesses,
      e.covers (args.inputBuffer.toNat + args.inputBufferLength.toNat) := by
  obtain ⟨hcaller, hargs, hprobe, hvalid, hlt, htail⟩ := h
  have hmin := NotifyArgs.minSize_le hargs
  refine ⟨.read (args.inputBuffer.toNat + messageMinSize)
    (headerSize (capturedHead client args fun _ => 0) - messageMinSize), ?_, by omega, by omega⟩
  unfold kphpCommsMessageNotifyCallback
  rw [if_neg (by simp [hcaller]), if_neg (by simp [hargs]), if_neg (by decide), hprobe]
  dsimp only [willingNotifyEnv]
  rw [if_neg (by simp [hvalid]), notifyTail, if_pos (by omega)]
  dsimp only
  rw [htail]
  exact mem_notifyHandle_accesses (by simp [accessed])

end

/-- A request is confined to its buffer and its state, whatever the client does to the
message meanwhile, exactly when it is not one that declares more than it brings. -/
theorem notifyCallback_confined_iff (space : AddressSpace) (client : Nat → Mem)
    (args : NotifyArgs) :
    (∀ env : NotifyEnv, ConfinedRequest client args env.processState
      (kphpCommsMessageNotifyCallback space client args env)) ↔
      ¬ args.OverDeclares space client := by
  constructor
  · intro h hover
    obtain ⟨e, he, hcovers⟩ := notifyCallback_reads_past hover
    have hin := (h willingNotifyEnv).inside e he _ hcovers
    omega
  · intro h env
    exact notifyCallback_confined h

/-- A message of the minimum length that declares one byte more. -/
def overDeclaringClient : Nat → Mem := fun _ a =>
  match a - 0x10000 with
  | 0 => 4
  | 2 => 101
  | 3 => 1
  | 4 => 1
  | _ => 0

theorem notifyCallback_overDeclared :
    ¬ ConfinedRequest overDeclaringClient ⟨true, 0x10000, 356, 0, 0⟩ kphProcessStateMaximum
      (kphpCommsMessageNotifyCallback ⟨0x7FFFFFFF0000, 0x7FFFFFFEFFFF⟩ overDeclaringClient
        ⟨true, 0x10000, 356, 0, 0⟩ willingNotifyEnv) := by
  intro h
  have hover : NotifyArgs.OverDeclares ⟨0x7FFFFFFF0000, 0x7FFFFFFEFFFF⟩ overDeclaringClient
      ⟨true, 0x10000, 356, 0, 0⟩ := by
    refine ⟨rfl, by decide, by decide, by decide +kernel, by decide +kernel, by decide +kernel⟩
  obtain ⟨e, he, hcovers⟩ := notifyCallback_reads_past hover
  have hin := h.inside e he _ hcovers
  omega

end SystemInformer.Driver
