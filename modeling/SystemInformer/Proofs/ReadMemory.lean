import SystemInformer.Driver.VirtualMemory

/-!
# A user mode read is confined to the range it names

A read delivers bytes only from the copy that ends `readCopyFrom`, and only two of its
exits make one. Each comes after a check of the end of the range, and since a user mode
call whose end wraps has already been refused, the end is the true sum: either it is at
most `MmHighestUserAddress`, or a loaded module holds the whole range. The bytes are a
prefix of the range, so nothing outside it can show in them.

The number of bytes read is stored by the exit block after everything else. The block
swallows an exception, so the caller finds the number only if that store goes through.
-/

namespace SystemInformer.Driver

open AccessTrace Bytes

/-! ## The system modules -/

theorem uint64_add_toNat {a b : UInt64} (h : ¬ a + b < a) :
    (a + b).toNat = a.toNat + b.toNat := by
  rw [UInt64.lt_iff_toNat_lt, UInt64.toNat_add] at h
  rw [UInt64.toNat_add]
  have ha := a.toNat_lt
  have hb := b.toNat_lt
  omega

/-- The module holds the whole range of `length` bytes at `address`. -/
def SystemModule.Holds (module_ : SystemModule) (address length : UInt64) : Prop :=
  module_.dllBase.toNat ≤ address.toNat ∧
    address.toNat + length.toNat ≤ module_.dllBase.toNat + module_.sizeOfImage.toNat

theorem SystemModule.holds_of_accepts {module_ : SystemModule} {address length : UInt64}
    (hwrap : ¬ address + length < address)
    (h : module_.accepts address (address + length) = true) :
    module_.Holds address length := by
  have hend := uint64_add_toNat hwrap
  simp only [accepts, Bool.and_eq_true, decide_eq_true_eq, ge_iff_le] at h
  obtain ⟨hlo, hhi⟩ := h
  rw [UInt64.le_iff_toNat_le] at hlo hhi
  rw [hend, UInt64.toNat_add, UInt32.toNat_toUInt64] at hhi
  refine ⟨hlo, hhi.trans (Nat.mod_le _ _)⟩

theorem kphValidateAddressForSystemModules_success {acquire : Bool}
    {modules : List SystemModule} {address length : UInt64}
    (h : ntSuccess (kphValidateAddressForSystemModules acquire modules address length) = true) :
    ¬ address + length < address ∧
      ∃ module_ ∈ modules, module_.Holds address length := by
  unfold kphValidateAddressForSystemModules at h
  split at h
  · exact absurd h (by decide)
  · next hwrap =>
      split at h
      · exact absurd h (by decide)
      · split at h
        · next hany =>
            obtain ⟨module_, hmem, hacc⟩ := List.any_eq_true.mp hany
            exact ⟨hwrap, module_, hmem, SystemModule.holds_of_accepts hwrap hacc⟩
        · exact absurd h (by decide)

/-! ## The copies -/

theorem take_copyBuffer {source : Mem} {address n m : Nat} {initial : List UInt8} (h : m ≤ n) :
    (copyBuffer source address n initial).take m = (load source address n).take m := by
  rw [copyBuffer, List.take_append_of_le_length (by simpa using h)]

theorem tryCopyBytes_copyBuffer {source : Mem} {address n : Nat} {initial : List UInt8}
    {fault : Option CopyFault} :
    tryCopyBytes (copyBuffer source address n initial) n fault =
      tryCopyBytes (load source address n) n fault := by
  unfold tryCopyBytes
  split
  · rw [take_copyBuffer (Nat.le_refl _)]
  · rw [take_copyBuffer (Nat.min_le_right _ _)]

theorem length_tryCopyBytes {bytes : List UInt8} {n : Nat} {fault : Option CopyFault}
    (hn : bytes.length = n) (h : (tryCopyBytes bytes n fault).2 = none) :
    (tryCopyBytes bytes n fault).1.length = n := by
  unfold tryCopyBytes at h ⊢
  split at h
  · simp [hn]
  · cases h

theorem tryCopyBytes_raised {bytes : List UInt8} {n : Nat} {fault : Option CopyFault}
    {status : NtStatus} (h : (tryCopyBytes bytes n fault).2 = some status) :
    ntSuccess status = false := by
  unfold tryCopyBytes at h
  split at h
  · cases h
  · next fault =>
      obtain rfl := Option.some.inj h
      exact fault.failed

/-! ## What a copy was checked for -/

/-- The range a read names does not wrap and lies below the highest user address, or in
one loaded module. -/
def ReadArgs.Confined (space : AddressSpace) (modules : List SystemModule) (args : ReadArgs) :
    Prop :=
  args.baseAddress.toNat + args.bufferSize.toNat < 2 ^ 64 ∧
    (args.baseAddress.toNat + args.bufferSize.toNat ≤ space.highestUserAddress ∨
      ∃ module_ ∈ modules, module_.Holds args.baseAddress args.bufferSize)

theorem readCopyFrom_cases (space : AddressSpace) (args : ReadArgs) (env : CopyEnv)
    (hwrap : ¬ args.baseAddress + args.bufferSize < args.baseAddress) :
    (∃ status, ∀ source, readCopyFrom space source args env = (status, 0, none)) ∨
    (args.Confined space env.modules ∧
      ((∃ r : NtStatus × Nat, r.2 ≤ args.bufferSize.toNat ∧ ∀ source,
          readCopyFrom space source args env =
            ((tryCopyBytes (load source args.baseAddress.toNat r.2) r.2 env.copyFault).2.getD r.1,
              r.2,
              some (tryCopyBytes (load source args.baseAddress.toNat r.2) r.2 env.copyFault).1)) ∨
        ∃ r : NtStatus × Nat, r.2 ≤ args.bufferSize.toNat ∧ ∀ source,
          readCopyFrom space source args env =
            (r.1, r.2, some (load source args.baseAddress.toNat r.2)))) := by
  have hend := uint64_add_toNat hwrap
  have hlt : args.baseAddress.toNat + args.bufferSize.toNat < 2 ^ 64 :=
    hend ▸ (args.baseAddress + args.bufferSize).toNat_lt
  unfold readCopyFrom
  by_cases hzero : args.bufferSize = 0
  · exact .inl ⟨_, fun source => if_pos hzero⟩
  simp only [if_neg hzero]
  by_cases hhigh : (args.baseAddress + args.bufferSize).toNat > space.highestUserAddress
  · simp only [if_pos hhigh]
    by_cases hacq : env.acquireModules = false
    · exact .inl ⟨_, fun source => if_pos hacq⟩
    simp only [if_neg hacq]
    cases hval : ntSuccess (kphValidateAddressForSystemModules env.acquireAgain env.modules
        args.baseAddress args.bufferSize) with
    | false => exact .inl ⟨_, fun source => if_pos rfl⟩
    | true =>
        obtain ⟨-, module_, hmem, hholds⟩ := kphValidateAddressForSystemModules_success hval
        by_cases halloc : args.bufferSize.toNat > readStackBuffer ∧ env.allocate = false
        · exact .inl ⟨statusInsufficientResources, fun source => by
            simp only [if_pos halloc, Bool.true_eq_false, if_false]⟩
        · refine .inr ⟨⟨hlt, .inr ⟨module_, hmem, hholds⟩⟩, .inl
            ⟨env.mmCopyMemory args.baseAddress args.bufferSize,
              env.mmCopyMemory_le _ _, fun source => ?_⟩⟩
          simp only [if_neg halloc, Bool.true_eq_false, if_false]
          rw [tryCopyBytes_copyBuffer]
  · simp only [if_neg hhigh]
    by_cases hproc : args.processHandle = 0
    · exact .inl ⟨_, fun source => if_pos hproc⟩
    simp only [if_neg hproc]
    by_cases href : ntSuccess env.referenceProcess = false
    · exact .inl ⟨_, fun source => if_pos href⟩
    simp only [if_neg href]
    exact .inr ⟨⟨hlt, .inl (by omega)⟩, .inr
      ⟨env.mmCopyVirtualMemory args.baseAddress args.bufferSize,
        env.mmCopyVirtualMemory_le _ _, fun source => rfl⟩⟩

/-- What a read leaves, as a function of the memory it reads. -/
def leaveRead (args : ReadArgs) (env : CopyEnv) (probes : List Event)
    (r : NtStatus × Nat × Option (List UInt8)) : Delivery :=
  ⟨r.1, r.2.1, probes, r.2.2, exitStoreBytes .userMode args.numberOfBytesRead r.2.1 env.exitFault⟩

/-- A user mode read stops before its copies, or makes them for a range that does not
wrap. -/
theorem userRead_cases (space : AddressSpace) (args : ReadArgs) (env : CopyEnv) :
    (∃ probes status, ∀ source, kphReadVirtualMemoryFrom space source args .userMode env =
      leaveRead args env probes (status, 0, none)) ∨
    (¬ args.baseAddress + args.bufferSize < args.baseAddress ∧
      ∃ probes, ∀ source, kphReadVirtualMemoryFrom space source args .userMode env =
        leaveRead args env probes (readCopyFrom space source args env)) := by
  unfold kphReadVirtualMemoryFrom
  by_cases hbuf : args.buffer = 0
  · exact .inl ⟨_, _, fun source => if_pos hbuf⟩
  simp only [if_neg hbuf]
  by_cases hwrap : args.baseAddress + args.bufferSize < args.baseAddress
  · exact .inl ⟨_, _, fun source => if_pos hwrap⟩
  simp only [if_neg hwrap]
  split
  · next status hp => exact .inl ⟨_, status, fun source => rfl⟩
  · exact .inr ⟨hwrap, _, fun source => rfl⟩

/-- Both splits at once: no copy, or one of a confined range with at most `BufferSize`
bytes, whose length is the number reported when the call succeeds. -/
theorem userRead_spec (space : AddressSpace) (args : ReadArgs) (env : CopyEnv) :
    (∃ probes status, ∀ source, kphReadVirtualMemoryFrom space source args .userMode env =
      leaveRead args env probes (status, 0, none)) ∨
    (args.Confined space env.modules ∧
      ∃ probes status n, ∃ copied : List UInt8 → List UInt8, n ≤ args.bufferSize.toNat ∧
        (ntSuccess status = true → ∀ bytes, bytes.length = n → (copied bytes).length = n) ∧
        ∀ source, kphReadVirtualMemoryFrom space source args .userMode env =
          leaveRead args env probes
            (status, n, some (copied (load source args.baseAddress.toNat n)))) := by
  rcases userRead_cases space args env with h | ⟨hwrap, probes, hread⟩
  · exact .inl h
  rcases readCopyFrom_cases space args env hwrap with ⟨status, hnone⟩ | ⟨hconf, hcopy⟩
  · exact .inl ⟨probes, status, fun source => by rw [hread, hnone]⟩
  refine .inr ⟨hconf, probes, ?_⟩
  rcases hcopy with ⟨r, hle, hr⟩ | ⟨r, hle, hr⟩
  · -- The status of a copy does not depend on the bytes, only on whether it raised.
    have hst : ∀ bytes bytes' : List UInt8, (tryCopyBytes bytes r.2 env.copyFault).2 =
        (tryCopyBytes bytes' r.2 env.copyFault).2 := by
      intro bytes bytes'
      unfold tryCopyBytes
      split
      · rfl
      · rfl
    refine ⟨(tryCopyBytes [] r.2 env.copyFault).2.getD r.1, r.2,
      fun bytes => (tryCopyBytes bytes r.2 env.copyFault).1, hle, ?_, fun source => ?_⟩
    · intro hsucc bytes hlen
      cases hraise : (tryCopyBytes [] r.2 env.copyFault).2 with
      | none => exact length_tryCopyBytes hlen (by rw [hst bytes [], hraise])
      | some status =>
          rw [hraise] at hsucc
          have hfail := tryCopyBytes_raised hraise
          exact absurd (hfail.symm.trans hsucc) (by decide)
    · rw [hread, hr, hst _ []]
  · exact ⟨r.1, r.2, id, hle, fun _ _ h => h, fun source => by rw [hread, hr]; rfl⟩

/-! ## The number of bytes read -/

theorem exitStoreBytes_unfaulted {pointer : UInt64} {n : Nat} (h : pointer ≠ 0) :
    exitStoreBytes .userMode pointer n none = [Store.field pointer.toNat sizeofSizeT n] :=
  if_neg h

theorem field_stores_leaveRead {args : ReadArgs} {env : CopyEnv} {probes : List Event}
    {status : NtStatus} {n : Nat} {copied : Option (List UInt8)} (hn : n < 2 ^ 64)
    (hp : args.numberOfBytesRead ≠ 0) (hf : env.exitFault = none) (memory : Mem) :
    field (applyLog memory ((leaveRead args env probes (status, n, copied)).stores args.buffer))
      args.numberOfBytesRead.toNat sizeofSizeT = n := by
  have hexit : (leaveRead args env probes (status, n, copied)).exit =
      [Store.field args.numberOfBytesRead.toNat sizeofSizeT n] := by
    show exitStoreBytes .userMode args.numberOfBytesRead n env.exitFault = _
    rw [hf, exitStoreBytes_unfaulted hp]
  rw [Delivery.stores, hexit, applyLog_append, applyLog, applyLog, Store.field_apply_same]
  exact Nat.mod_eq_of_lt hn

/-! ## The read -/

/-- A user mode read delivers bytes only from a range that does not wrap and lies in the
user part or in one loaded module; the bytes depend on nothing outside the range; and a
call that succeeds leaves their number at `NumberOfBytesRead`, unless the store of it
raises. -/
theorem readVirtualMemory_confined (space : AddressSpace) (source : Mem) (args : ReadArgs)
    (env : CopyEnv) :
    ((kphReadVirtualMemoryFrom space source args .userMode env).delivered ≠ [] →
      args.Confined space env.modules) ∧
    (∀ source' : Mem,
      (∀ a, args.baseAddress.toNat ≤ a →
        a < args.baseAddress.toNat + args.bufferSize.toNat → source a = source' a) →
      (kphReadVirtualMemoryFrom space source args .userMode env).delivered =
        (kphReadVirtualMemoryFrom space source' args .userMode env).delivered) ∧
    (ntSuccess (kphReadVirtualMemoryFrom space source args .userMode env).status = true →
      args.numberOfBytesRead ≠ 0 → env.exitFault = none → ∀ memory : Mem,
      field (applyLog memory
          ((kphReadVirtualMemoryFrom space source args .userMode env).stores args.buffer))
        args.numberOfBytesRead.toNat sizeofSizeT =
        (kphReadVirtualMemoryFrom space source args .userMode env).delivered.length) := by
  rcases userRead_spec space args env with
    ⟨probes, status, h⟩ | ⟨hconf, probes, status, n, copied, hle, hlen, h⟩
  · refine ⟨fun hne => ?_, fun source' _ => by rw [h, h], fun _ hp hf memory => ?_⟩
    · rw [h] at hne
      exact absurd rfl hne
    · rw [h, field_stores_leaveRead (by decide) hp hf]
      rfl
  · refine ⟨fun _ => hconf, fun source' hagree => ?_, fun hsucc hp hf memory => ?_⟩
    · rw [h, h, load_congr fun a ha ha' => hagree a ha (by omega)]
    · have hn : n < 2 ^ 64 := hle.trans_lt args.bufferSize.toNat_lt
      rw [h] at hsucc
      rw [h, field_stores_leaveRead hn hp hf]
      exact (hlen hsucc _ (length_load _ _ _)).symm

/-- A read of one user byte whose store of the number of bytes read raises. -/
def unwritableRead : ReadArgs := ⟨8, 0x1000, 0x2000, 1, 0x3000⟩

def unwritableEnv : CopyEnv where
  modules := []
  acquireModules := true
  acquireAgain := true
  allocate := true
  poolBuffer := []
  mmCopyMemory := fun _ size => (statusSuccess, size.toNat)
  mmCopyMemory_le := fun _ _ => Nat.le_refl _
  copyFault := none
  referenceProcess := statusSuccess
  mmCopyVirtualMemory := fun _ size => (statusSuccess, size.toNat)
  mmCopyVirtualMemory_le := fun _ _ => Nat.le_refl _
  exitFault := some ⟨0, statusAccessViolation, by decide⟩

/-- The read succeeds and delivers its byte, and `NumberOfBytesRead` keeps the zero it
held: the exception of that store is swallowed. -/
theorem readVirtualMemory_length_unstored :
    let d := kphReadVirtualMemoryFrom ⟨0x7FFFFFFF0000, 0x7FFFFFFEFFFF⟩ (fun _ => 7)
      unwritableRead .userMode unwritableEnv
    ntSuccess d.status = true ∧ unwritableRead.numberOfBytesRead ≠ 0 ∧ d.delivered = [7] ∧
      field (applyLog (fun _ => 0) (d.stores unwritableRead.buffer))
        unwritableRead.numberOfBytesRead.toNat sizeofSizeT = 0 := by
  decide

/-- The number is stored for the same read when its pointer can be written. -/
theorem readVirtualMemory_confined_byte :
    let env := { unwritableEnv with exitFault := none }
    let d := kphReadVirtualMemoryFrom ⟨0x7FFFFFFF0000, 0x7FFFFFFEFFFF⟩ (fun _ => 7)
      unwritableRead .userMode env
    d.delivered = [7] ∧ unwritableRead.Confined ⟨0x7FFFFFFF0000, 0x7FFFFFFEFFFF⟩ [] ∧
      field (applyLog (fun _ => 0) (d.stores unwritableRead.buffer))
        unwritableRead.numberOfBytesRead.toNat sizeofSizeT = 1 := by
  intro env d
  obtain ⟨hconf, -, hnumber⟩ := readVirtualMemory_confined ⟨0x7FFFFFFF0000, 0x7FFFFFFEFFFF⟩
    (fun _ => 7) unwritableRead env
  have hdel : d.delivered = [7] := by decide
  refine ⟨hdel, hconf (by decide), ?_⟩
  exact (hnumber (by decide) (by decide) rfl fun _ => 0).trans (congrArg List.length hdel)

end SystemInformer.Driver
