import SystemInformer.Driver.CommsQueue
import SystemInformer.Lib.Places

/-!
# Asynchronous messages are disposed of exactly once

An item is free, or with the thread that allocated it, or in the queue, or with a queue
thread, or with `KphCommsStop`, and never at two of these places. A message that was passed
is with its sender, in an item, or freed. A step moves one item from one place to the next
and with it at most one message; only `KeRundownQueue` moves many, from the queue to
`KphCommsStop`.

What makes the last step of a message happen before `KphCommsStop` returns is the order of
its waits. A thread that puts an item into the queue holds the rundown, so nothing is put
there after the first wait; a queue thread terminates only with no item, so after the
second wait the items that are left are those that `KphCommsStop` has.

A sender that cannot acquire the rundown frees its message itself, and nothing makes it
hurry: that is the one thing that may happen after `KphCommsStop` returned.
-/

namespace SystemInformer.Driver

open Places

section

variable {τ ω μ ι : Type}

/-! ## Where items and messages are -/

inductive ItemPlace (τ ω : Type) where
  | free
  | sender (t : τ)
  | queue
  | worker (w : ω) (phase : ItemPhase)
  | drain (phase : ItemPhase)

def ItemPlace.phase : ItemPlace τ ω → Option ItemPhase
  | .free => none
  | .sender _ => some .kphpCommsSendMessage
  | .queue => some .kphpCommsSendMessage
  | .worker _ phase => some phase
  | .drain phase => some phase

def ItemPlace.after (place : ItemPhase → ItemPlace τ ω) (phase : ItemPhase) : ItemPlace τ ω :=
  phase.next.elim .free place

inductive MessagePlace (τ ι : Type) where
  | outside
  | sender (t : τ)
  | item (i : ι) (sent : Bool)
  | freed

def MessagePlace.unsent : MessagePlace τ ι → Bool
  | .outside => true
  | .sender _ => true
  | .item _ sent => !sent
  | .freed => false

/-- The message that a sender still has, not in an item. -/
def SenderPc.carried : SenderPc μ ι → Option (QueueItem μ)
  | .kphAcquireRundown item => some item
  | .dropNoRundown item => some item
  | .kphpAllocateMessageQueueItem item => some item
  | .dropNoItem item => some item
  | _ => none

def SenderPc.entry : SenderPc μ ι → Option ι
  | .keInsertQueue entry => some entry
  | _ => none

def SenderPc.holdsRundown : SenderPc μ ι → Bool
  | .kphpAllocateMessageQueueItem _ => true
  | .dropNoItem _ => true
  | .keInsertQueue _ => true
  | .kphReleaseRundown => true
  | _ => false

def CommsEvent.frees [DecidableEq μ] (m : μ) : CommsEvent μ → Bool
  | .free message _ _ => message = m
  | _ => false

def CommsEvent.sends [DecidableEq μ] (m : μ) : CommsEvent μ → Bool
  | .kphpCommsSendMessage message _ => message = m
  | _ => false

namespace CommsState

variable [DecidableEq ι]

/-- `KphCommsStop` has the item: it waits for the threads, or drains. -/
def Draining (s : CommsState τ ω μ ι) (i : ι) (phase : ItemPhase) : Prop :=
  match s.stop with
  | .keWaitForSingleObject _ _ => phase = .kphpCommsSendMessage ∧ i ∈ s.chain
  | .drain current item _ _ => (i = item ∧ phase = current) ∨
      (phase = .kphpCommsSendMessage ∧ i ∈ (s.chain.dropWhile (· ≠ item)).tail)
  | _ => False

def HasItem (s : CommsState τ ω μ ι) (i : ι) : ItemPlace τ ω → Prop
  | .free => s.item i = none
  | .sender t => (s.sender t).entry = some i
  | .queue => i ∈ s.queue
  | .worker w phase => s.worker w = .item phase i
  | .drain phase => s.Draining i phase

def AtPhase (s : CommsState τ ω μ ι) (i : ι) (phase : ItemPhase) : Prop :=
  ∃ p, s.HasItem i p ∧ p.phase = some phase

variable [DecidableEq μ]

def count (s : CommsState τ ω μ ι) (kind : CommsEvent μ → Bool) : Nat :=
  s.events.countP kind + s.lateEvents.countP kind

def frees (s : CommsState τ ω μ ι) (m : μ) : Nat := s.count (CommsEvent.frees m)

def sends (s : CommsState τ ω μ ι) (m : μ) : Nat := s.count (CommsEvent.sends m)

def HasMessage (s : CommsState τ ω μ ι) (m : μ) : MessagePlace τ ι → Prop
  | .outside => m ∉ s.passed
  | .sender t => ∃ c, (s.sender t).carried = some c ∧ c.message = m
  | .item i sent => ∃ c, s.item i = some c ∧ c.message = m ∧
      s.AtPhase i (if sent then .freeMessage else .kphpCommsSendMessage)
  | .freed => 0 < s.frees m

/-- Where the messages are, and what happened to them. -/
structure MessagesOk (s : CommsState τ ω μ ι) : Prop where
  placed : Placed s.HasMessage
  sentOnce : ∀ m, s.sends m ≤ 1
  unsent : ∀ m p, s.HasMessage m p → p.unsent = true → s.sends m = 0
  freedOnce : ∀ m, s.frees m ≤ 1

/-- The pool a message is from is known wherever it goes. -/
structure PoolsOk (nonPaged : μ → Bool) (s : CommsState τ ω μ ι) : Prop where
  sender : ∀ t c, (s.sender t).carried = some c → c.nonPaged = nonPaged c.message
  item : ∀ i c, s.item i = some c → c.nonPaged = nonPaged c.message
  free : ∀ m n reason, .free m n reason ∈ s.events ∨ .free m n reason ∈ s.lateEvents →
    n = nonPaged m

end CommsState

end

section

variable {τ ω μ ι : Type} {nonPaged : μ → Bool} {s s' : CommsState τ ω μ ι}

namespace CommsState

/-! ## What a step does to the log -/

theorem count_record (event : CommsEvent μ) (kind : CommsEvent μ → Bool) :
    (s.record event).count kind = s.count kind + (kind event).toNat := by
  have hcount : ∀ l : List (CommsEvent μ), (l ++ [event]).countP kind =
      l.countP kind + (kind event).toNat := by
    intro l
    rw [List.countP_append, List.countP_singleton, Bool.toNat]
    cases kind event <;> rfl
  rw [record, count]
  split
  · simp only [count, hcount]
    omega
  · simp only [count, hcount]
    omega

theorem mem_record (event e : CommsEvent μ) :
    e ∈ (s.record event).events ∨ e ∈ (s.record event).lateEvents ↔
      (e ∈ s.events ∨ e ∈ s.lateEvents) ∨ e = event := by
  rw [record]
  split
  · simp [or_assoc]
  · simp only [List.mem_append, List.mem_singleton]
    tauto

theorem record_eq (event : CommsEvent μ) :
    (s.record event).sender = s.sender ∧ (s.record event).worker = s.worker ∧
      (s.record event).stop = s.stop ∧ (s.record event).queue = s.queue ∧
      (s.record event).chain = s.chain ∧ (s.record event).item = s.item ∧
      (s.record event).passed = s.passed ∧ (s.record event).closing = s.closing ∧
      (s.record event).holders = s.holders ∧ (s.record event).abandoned = s.abandoned := by
  rw [record]
  split <;> exact ⟨rfl, rfl, rfl, rfl, rfl, rfl, rfl, rfl, rfl, rfl⟩

/-! ## Messages -/

variable [DecidableEq μ] [DecidableEq ι]

theorem hasMessage_congr {m : μ} (hpassed : m ∈ s'.passed ↔ m ∈ s.passed)
    (hcarried : ∀ t, s'.HasMessage m (.sender t) ↔ s.HasMessage m (.sender t))
    (hitem : ∀ i sent, s'.HasMessage m (.item i sent) ↔ s.HasMessage m (.item i sent))
    (hfrees : s'.frees m = s.frees m) (p : MessagePlace τ ι) :
    s'.HasMessage m p ↔ s.HasMessage m p := by
  cases p with
  | outside => exact not_congr hpassed
  | sender t => exact hcarried t
  | item i sent => exact hitem i sent
  | freed => rw [HasMessage, HasMessage, hfrees]

theorem MessagesOk.congr (h : MessagesOk s) (hpassed : s'.passed = s.passed)
    (hcarried : ∀ t, (s'.sender t).carried = (s.sender t).carried) (hitem : s'.item = s.item)
    (hphase : ∀ i phase, s'.AtPhase i phase ↔ s.AtPhase i phase)
    (hcount : ∀ kind, s'.count kind = s.count kind) : MessagesOk s' := by
  have hplace : ∀ m p, s'.HasMessage m p ↔ s.HasMessage m p := by
    intro m
    refine hasMessage_congr (by rw [hpassed]) ?_ ?_ (hcount _)
    · intro t
      simp only [HasMessage, hcarried]
    · intro i sent
      simp only [HasMessage, hitem, hphase]
  exact {
    placed := h.placed.congr hplace
    sentOnce := fun m => (hcount _).trans_le (h.sentOnce m)
    unsent := fun m p hp hu => (hcount _).trans (h.unsent m p ((hplace m p).mp hp) hu)
    freedOnce := fun m => (hcount _).trans_le (h.freedOnce m) }

theorem MessagesOk.move (h : MessagesOk s) {m : μ} {p : MessagePlace τ ι}
    (hother : ∀ m', m' ≠ m → ∀ q, s'.HasMessage m' q ↔ s.HasMessage m' q)
    (hself : ∀ q, s'.HasMessage m q ↔ q = p)
    (hsends : ∀ m', m' ≠ m → s'.sends m' = s.sends m')
    (hfrees : ∀ m', m' ≠ m → s'.frees m' = s.frees m') (hsent : s'.sends m ≤ 1)
    (hunsent : p.unsent = true → s'.sends m = 0) (hfreed : s'.frees m ≤ 1) : MessagesOk s' where
  placed := h.placed.move m p hother hself
  sentOnce := by
    intro m'
    by_cases hm : m' = m
    · rw [hm]
      exact hsent
    · rw [hsends m' hm]
      exact h.sentOnce m'
  unsent := by
    intro m' q hq hu
    by_cases hm : m' = m
    · subst hm
      rw [(hself q).mp hq] at hu
      exact hunsent hu
    · rw [hsends m' hm]
      exact h.unsent m' q ((hother m' hm q).mp hq) hu
  freedOnce := by
    intro m'
    by_cases hm : m' = m
    · rw [hm]
      exact hfreed
    · rw [hfrees m' hm]
      exact h.freedOnce m'

theorem MessagesOk.frees_eq_zero (h : MessagesOk s) {m : μ} {p : MessagePlace τ ι}
    (hp : s.HasMessage m p) (hne : p ≠ .freed) : s.frees m = 0 := by
  have hnot : ¬ s.HasMessage m .freed := h.placed.not hp hne.symm
  rw [HasMessage] at hnot
  omega

theorem MessagesOk.pass (h : MessagesOk s) {c : QueueItem μ} {t : τ} (hnew : c.message ∉ s.passed)
    (hidle : (s.sender t).carried = none) (hpassed : s'.passed = c.message :: s.passed)
    (hself : (s'.sender t).carried = some c)
    (hcarried : ∀ t', t' ≠ t → (s'.sender t').carried = (s.sender t').carried)
    (hitem : s'.item = s.item) (hphase : ∀ i phase, s'.AtPhase i phase ↔ s.AtPhase i phase)
    (hcount : ∀ kind, s'.count kind = s.count kind) : MessagesOk s' := by
  have houtside : s.HasMessage c.message .outside := hnew
  have hitems : ∀ m i sent, s'.HasMessage m (.item i sent) ↔ s.HasMessage m (.item i sent) := by
    intro m i sent
    simp only [HasMessage, hitem, hphase]
  refine h.move (m := c.message) (p := .sender t) ?_ ?_ (fun _ _ => hcount _) (fun _ _ => hcount _)
    ((hcount _).trans_le (h.sentOnce _)) ?_ ((hcount _).trans_le (h.freedOnce _))
  · intro m hm
    refine hasMessage_congr ?_ ?_ (hitems m) (hcount _)
    · rw [hpassed, List.mem_cons]
      exact or_iff_right hm
    · intro t'
      by_cases ht : t' = t
      · subst ht
        simp [HasMessage, hself, hidle, hm.symm]
      · simp only [HasMessage, hcarried t' ht]
  · intro q
    cases q with
    | outside => simp [HasMessage, hpassed]
    | sender t' =>
        by_cases ht : t' = t
        · subst ht
          simp [HasMessage, hself]
        · have hnot := h.placed.not houtside (q := .sender t') (by simp)
          simp only [HasMessage, hcarried t' ht, MessagePlace.sender.injEq, ht, iff_false]
          exact hnot
    | item i sent =>
        rw [hitems]
        simp [h.placed.not houtside (q := .item i sent) (by simp)]
    | freed =>
        have hzero := h.frees_eq_zero houtside (by simp)
        simp only [HasMessage, frees, hcount, reduceCtorEq, iff_false]
        rw [frees] at hzero
        omega
  · intro _
    exact (hcount _).trans (h.unsent _ _ houtside rfl)

theorem MessagesOk.drop (h : MessagesOk s) {c : QueueItem μ} {t : τ} {n : Bool}
    {reason : FreeReason} (hc : (s.sender t).carried = some c) (hpassed : s'.passed = s.passed)
    (hself : (s'.sender t).carried = none)
    (hcarried : ∀ t', t' ≠ t → (s'.sender t').carried = (s.sender t').carried)
    (hitem : s'.item = s.item) (hphase : ∀ i phase, s'.AtPhase i phase ↔ s.AtPhase i phase)
    (hcount : ∀ kind, s'.count kind =
      s.count kind + (kind (.free c.message n reason)).toNat) : MessagesOk s' := by
  have hsender : s.HasMessage c.message (.sender t) := ⟨c, hc, rfl⟩
  have hzero := h.frees_eq_zero hsender (by simp)
  have hitems : ∀ m i sent, s'.HasMessage m (.item i sent) ↔ s.HasMessage m (.item i sent) := by
    intro m i sent
    simp only [HasMessage, hitem, hphase]
  have hsends : ∀ m, s'.sends m = s.sends m := fun m => hcount _
  have hfrees : ∀ m, s'.frees m = s.frees m + (decide (c.message = m)).toNat := fun m => hcount _
  refine h.move (m := c.message) (p := .freed) ?_ ?_ (fun m _ => hsends m) ?_
    ((hsends _).trans_le (h.sentOnce _)) (fun hu => absurd hu (by simp [MessagePlace.unsent])) ?_
  · intro m hm
    refine hasMessage_congr (by rw [hpassed]) ?_ (hitems m) (by simp [hfrees, hm.symm])
    intro t'
    by_cases ht : t' = t
    · subst ht
      simp [HasMessage, hself, hc, hm.symm]
    · simp only [HasMessage, hcarried t' ht]
  · intro q
    cases q with
    | outside =>
        simp only [HasMessage, hpassed, reduceCtorEq, iff_false]
        exact h.placed.not hsender (q := .outside) (by simp)
    | sender t' =>
        by_cases ht : t' = t
        · subst ht
          simp [HasMessage, hself]
        · simp only [HasMessage, hcarried t' ht, reduceCtorEq, iff_false]
          exact h.placed.not hsender (q := .sender t') (by simp [ht])
    | item i sent =>
        rw [hitems]
        simp [h.placed.not hsender (q := .item i sent) (by simp)]
    | freed => simp [HasMessage, hfrees]
  · intro m hm
    simp [hfrees, hm.symm]
  · simp [hfrees, hzero]

theorem MessagesOk.allocate (h : MessagesOk s) {c : QueueItem μ} {t : τ} {e : ι}
    (hc : (s.sender t).carried = some c) (hpassed : s'.passed = s.passed)
    (hself : (s'.sender t).carried = none)
    (hcarried : ∀ t', t' ≠ t → (s'.sender t').carried = (s.sender t').carried)
    (hfree : s.item e = none) (hnew : s'.item e = some c)
    (hitem : ∀ i, i ≠ e → s'.item i = s.item i)
    (hphase : ∀ i, i ≠ e → ∀ phase, s'.AtPhase i phase ↔ s.AtPhase i phase)
    (hat : ∀ phase, s'.AtPhase e phase ↔ phase = .kphpCommsSendMessage)
    (hcount : ∀ kind, s'.count kind = s.count kind) : MessagesOk s' := by
  have hsender : s.HasMessage c.message (.sender t) := ⟨c, hc, rfl⟩
  refine h.move (m := c.message) (p := .item e false) ?_ ?_ (fun _ _ => hcount _)
    (fun _ _ => hcount _) ((hcount _).trans_le (h.sentOnce _)) ?_
    ((hcount _).trans_le (h.freedOnce _))
  · intro m hm
    refine hasMessage_congr (by rw [hpassed]) ?_ ?_ (hcount _)
    · intro t'
      by_cases ht : t' = t
      · subst ht
        simp [HasMessage, hself, hc, hm.symm]
      · simp only [HasMessage, hcarried t' ht]
    · intro i sent
      by_cases hi : i = e
      · subst hi
        simp [HasMessage, hnew, hfree, hm.symm]
      · simp only [HasMessage, hitem i hi, hphase i hi]
  · intro q
    cases q with
    | outside =>
        simp only [HasMessage, hpassed, reduceCtorEq, iff_false]
        exact h.placed.not hsender (q := .outside) (by simp)
    | sender t' =>
        by_cases ht : t' = t
        · subst ht
          simp [HasMessage, hself]
        · simp only [HasMessage, hcarried t' ht, reduceCtorEq, iff_false]
          exact h.placed.not hsender (q := .sender t') (by simp [ht])
    | item i sent =>
        by_cases hi : i = e
        · subst hi
          simp only [HasMessage, hnew, hat, Option.some.injEq, MessagePlace.item.injEq, true_and]
          cases sent <;> simp
        · simp only [HasMessage, hitem i hi, hphase i hi, MessagePlace.item.injEq, hi, false_and,
            iff_false]
          exact h.placed.not hsender (q := .item i sent) (by simp)
    | freed =>
        have hzero := h.frees_eq_zero hsender (by simp)
        simp only [HasMessage, frees, hcount, reduceCtorEq, iff_false]
        rw [frees] at hzero
        omega
  · intro _
    exact (hcount _).trans (h.unsent _ _ hsender rfl)

theorem MessagesOk.itemStep (h : MessagesOk s) {c : QueueItem μ} {i : ι} {phase : ItemPhase}
    (hi : s.item i = some c) (hat : ∀ p, s.AtPhase i p ↔ p = phase)
    (hpassed : s'.passed = s.passed) (hcarried : ∀ t, (s'.sender t).carried = (s.sender t).carried)
    (hitem : s'.item = (s.itemStep i c phase).item)
    (hphase : ∀ j, j ≠ i → ∀ p, s'.AtPhase j p ↔ s.AtPhase j p)
    (hnext : ∀ p, s'.AtPhase i p ↔ phase.next = some p)
    (hcount : ∀ kind, s'.count kind = (s.itemStep i c phase).count kind) : MessagesOk s' := by
  have hsender : ∀ m t, s'.HasMessage m (.sender t) ↔ s.HasMessage m (.sender t) := by
    intro m t
    simp only [HasMessage, hcarried]
  -- An item other than `i` has the message it had, and `i` has none but its own.
  have hothers : ∀ m j sent, j ≠ i → (s'.HasMessage m (.item j sent) ↔
      s.HasMessage m (.item j sent)) := by
    intro m j sent hj
    have hsame : s'.item j = s.item j := by
      rw [hitem]
      cases phase with
      | kphpCommsSendMessage => exact congrFun (record_eq _).2.2.2.2.2.1 j
      | freeMessage => exact congrFun (record_eq _).2.2.2.2.2.1 j
      | freeItem => exact Function.update_of_ne hj _ _
    simp only [HasMessage, hsame, hphase j hj]
  cases phase with
  | kphpCommsSendMessage =>
      have hmessage : s.HasMessage c.message (.item i false) := ⟨c, hi, rfl, (hat _).mpr rfl⟩
      have hsame : s'.item i = some c := by
        rw [hitem, ← hi]
        exact congrFun (record_eq _).2.2.2.2.2.1 i
      have hsends : ∀ m, s'.sends m = s.sends m + (decide (c.message = m)).toNat :=
        fun m => (hcount _).trans (count_record _ _)
      have hfrees : ∀ m, s'.frees m = s.frees m := fun m => (hcount _).trans (count_record _ _)
      refine h.move (m := c.message) (p := .item i true) ?_ ?_ ?_ (fun m _ => hfrees m) ?_
        (fun hu => absurd hu (by simp [MessagePlace.unsent])) ((hfrees _).trans_le (h.freedOnce _))
      · intro m hm
        refine hasMessage_congr (by rw [hpassed]) (hsender m) ?_ (hfrees m)
        intro j sent
        by_cases hj : j = i
        · subst hj
          simp [HasMessage, hsame, hi, hm.symm]
        · exact hothers m j sent hj
      · intro q
        cases q with
        | outside =>
            simp only [HasMessage, hpassed, reduceCtorEq, iff_false]
            exact h.placed.not hmessage (q := .outside) (by simp)
        | sender t =>
            rw [hsender]
            simp [h.placed.not hmessage (q := .sender t) (by simp)]
        | item j sent =>
            by_cases hj : j = i
            · subst hj
              simp only [HasMessage, hsame, hnext, ItemPhase.next, Option.some.injEq,
                MessagePlace.item.injEq, true_and]
              cases sent <;> simp
            · rw [hothers _ j sent hj]
              simp [h.placed.not hmessage (q := .item j sent) (by simp [hj]), hj]
        | freed =>
            have hzero := h.frees_eq_zero hmessage (by simp)
            simp [HasMessage, hfrees, hzero]
      · intro m hm
        simp [hsends, hm.symm]
      · have hzero := h.unsent _ _ hmessage rfl
        simp [hsends, hzero]
  | freeMessage =>
      have hmessage : s.HasMessage c.message (.item i true) := ⟨c, hi, rfl, (hat _).mpr rfl⟩
      have hzero := h.frees_eq_zero hmessage (by simp)
      have hsame : s'.item i = some c := by
        rw [hitem, ← hi]
        exact congrFun (record_eq _).2.2.2.2.2.1 i
      have hsends : ∀ m, s'.sends m = s.sends m := fun m => (hcount _).trans (count_record _ _)
      have hfrees : ∀ m, s'.frees m = s.frees m + (decide (c.message = m)).toNat :=
        fun m => (hcount _).trans (count_record _ _)
      refine h.move (m := c.message) (p := .freed) ?_ ?_ (fun m _ => hsends m) ?_
        ((hsends _).trans_le (h.sentOnce _)) (fun hu => absurd hu (by simp [MessagePlace.unsent])) ?_
      · intro m hm
        refine hasMessage_congr (by rw [hpassed]) (hsender m) ?_ (by simp [hfrees, hm.symm])
        intro j sent
        by_cases hj : j = i
        · subst hj
          simp [HasMessage, hsame, hi, hm.symm]
        · exact hothers m j sent hj
      · intro q
        cases q with
        | outside =>
            simp only [HasMessage, hpassed, reduceCtorEq, iff_false]
            exact h.placed.not hmessage (q := .outside) (by simp)
        | sender t =>
            rw [hsender]
            simp [h.placed.not hmessage (q := .sender t) (by simp)]
        | item j sent =>
            by_cases hj : j = i
            · subst hj
              cases sent <;> simp [HasMessage, hnext, ItemPhase.next]
            · rw [hothers _ j sent hj]
              simp [h.placed.not hmessage (q := .item j sent) (by simp [hj])]
        | freed => simp [HasMessage, hfrees]
      · intro m hm
        simp [hfrees, hm.symm]
      · simp [hfrees, hzero]
  | freeItem =>
      have hplace : ∀ m q, s'.HasMessage m q ↔ s.HasMessage m q := by
        intro m
        refine hasMessage_congr (by rw [hpassed]) (hsender m) ?_ (hcount _)
        intro j sent
        by_cases hj : j = i
        · subst hj
          cases sent <;> simp [HasMessage, hat, hnext, ItemPhase.next]
        · exact hothers m j sent hj
      exact {
        placed := h.placed.congr hplace
        sentOnce := fun m => (hcount _).trans_le (h.sentOnce m)
        unsent := fun m p hp hu => (hcount _).trans (h.unsent m p ((hplace m p).mp hp) hu)
        freedOnce := fun m => (hcount _).trans_le (h.freedOnce m) }

end CommsState

end

/-! ## The threads and their order -/

/-- How far `KphCommsStop` is. -/
def StopPc.stage {ω ι : Type} : StopPc ω ι → Nat
  | .notCalled => 0
  | .kphWaitForRundown => 1
  | .keRundownQueue => 2
  | .keWaitForSingleObject _ _ => 3
  | .drain _ _ _ _ => 4
  | .deleteLookasides => 5
  | .returned => 6

section

variable {τ ω μ ι : Type} {s s' : CommsState τ ω μ ι}

/-- What is known of the threads and the queue, by how far `KphCommsStop` is. -/
structure FlowOk (threads : List ω) (s : CommsState τ ω μ ι) : Prop where
  late : ∀ e ∈ s.lateEvents, ∃ m n, e = .free m n .noRundown
  created : ∀ w, w ∉ threads → s.worker w = .terminated
  holders : ∀ t, (s.sender t).holdsRundown = true → t ∈ s.holders
  queueNodup : s.queue.Nodup
  chainNodup : s.chain.Nodup
  closing : s.closing = true ↔ 1 ≤ s.stop.stage
  noHolders : 2 ≤ s.stop.stage → s.holders = []
  abandoned : s.abandoned = true ↔ 3 ≤ s.stop.stage
  queueEmpty : 3 ≤ s.stop.stage → s.queue = []
  terminated : 4 ≤ s.stop.stage → ∀ w, s.worker w = .terminated
  waiting : ∀ entry rest, s.stop = .keWaitForSingleObject entry rest →
    entry = s.chain.head? ∧ ∀ w, w ∉ rest → s.worker w = .terminated
  draining : ∀ phase item entry first, s.stop = .drain phase item entry first →
    ∃ before rest, s.chain = before ++ item :: rest ∧ s.chain.head? = some first ∧
      entry = rest.head?.getD first

namespace CommsState

theorem mem_late_record {event e : CommsEvent μ} (h : e ∈ (s.record event).lateEvents) :
    e ∈ s.lateEvents ∨ (s.stop = .returned ∧ e = event) := by
  rw [record] at h
  split at h
  · next hstop =>
      rcases List.mem_append.mp h with h | h
      · exact Or.inl h
      · exact Or.inr ⟨hstop, List.mem_singleton.mp h⟩
  · exact Or.inl h

variable [DecidableEq ι]

theorem hasItem_congr (hitem : s'.item = s.item)
    (hentry : ∀ t, (s'.sender t).entry = (s.sender t).entry) (hqueue : s'.queue = s.queue)
    (hworker : s'.worker = s.worker) (hdrain : ∀ i phase, s'.Draining i phase ↔ s.Draining i phase)
    (i : ι) (p : ItemPlace τ ω) : s'.HasItem i p ↔ s.HasItem i p := by
  cases p with
  | free => simp only [HasItem, hitem]
  | sender t => simp only [HasItem, hentry]
  | queue => simp only [HasItem, hqueue]
  | worker w phase => simp only [HasItem, hworker]
  | drain phase => exact hdrain i phase

theorem draining_congr (hstop : s'.stop = s.stop) (hchain : s'.chain = s.chain) (i : ι)
    (phase : ItemPhase) : s'.Draining i phase ↔ s.Draining i phase := by
  rw [Draining, Draining, hstop, hchain]

theorem atPhase_iff (h : Placed s.HasItem) {i : ι} {p : ItemPlace τ ω} (hp : s.HasItem i p)
    (phase : ItemPhase) : s.AtPhase i phase ↔ p.phase = some phase := by
  constructor
  · rintro ⟨q, hq, hphase⟩
    rwa [h.eq hp hq]
  · intro hphase
    exact ⟨p, hp, hphase⟩

theorem atPhase_congr {i : ι} (h : ∀ p, s'.HasItem i p ↔ s.HasItem i p) (phase : ItemPhase) :
    s'.AtPhase i phase ↔ s.AtPhase i phase := by
  simp only [AtPhase, h]

structure ItemMove (s s' : CommsState τ ω μ ι) (i : ι) (p : ItemPlace τ ω) : Prop where
  other : ∀ j, j ≠ i → ∀ q, s'.HasItem j q ↔ s.HasItem j q
  self : ∀ q, s'.HasItem i q ↔ q = p

theorem ItemMove.placed {i : ι} {p : ItemPlace τ ω} (hmove : ItemMove s s' i p)
    (h : Placed s.HasItem) : Placed s'.HasItem := h.move i p hmove.other hmove.self

theorem ItemMove.atPhase_other {i j : ι} {p : ItemPlace τ ω} (hmove : ItemMove s s' i p)
    (hj : j ≠ i) (phase : ItemPhase) : s'.AtPhase j phase ↔ s.AtPhase j phase :=
  atPhase_congr (hmove.other j hj) phase

theorem ItemMove.atPhase_self {i : ι} {p : ItemPlace τ ω} (hmove : ItemMove s s' i p)
    (phase : ItemPhase) : s'.AtPhase i phase ↔ p.phase = some phase := by
  simp [AtPhase, hmove.self]

theorem ItemMove.atPhase_same (h : Placed s.HasItem) {i : ι} {p p' : ItemPlace τ ω}
    (hmove : ItemMove s s' i p') (hp : s.HasItem i p) (hphase : p.phase = p'.phase) (j : ι)
    (phase : ItemPhase) : s'.AtPhase j phase ↔ s.AtPhase j phase := by
  by_cases hj : j = i
  · subst hj
    rw [hmove.atPhase_self, atPhase_iff h hp, hphase]
  · exact hmove.atPhase_other hj phase

theorem ItemMove.of_left (h : Placed s.HasItem) {i : ι} {p p' : ItemPlace τ ω}
    (hp : s.HasItem i p) (hother : ∀ j, j ≠ i → ∀ q, s'.HasItem j q ↔ s.HasItem j q)
    (hthere : s'.HasItem i p') (hleft : ¬ s'.HasItem i p ∨ p = p')
    (hrest : ∀ q, q ≠ p → q ≠ p' → s'.HasItem i q → s.HasItem i q) : ItemMove s s' i p' := by
  refine ⟨hother, ?_⟩
  intro q
  constructor
  · intro hq
    by_contra hne
    by_cases hqp : q = p
    · subst hqp
      exact hleft.elim (fun hnot => hnot hq) hne
    · exact hqp (h.eq (hrest q hqp hne hq) hp)
  · rintro rfl
    exact hthere

/-! ## Senders -/

variable [DecidableEq τ]

theorem allocate_itemMove (h : Placed s.HasItem) {t : τ} {e : ι} {c : QueueItem μ}
    (hfree : s.item e = none) (hentry : (s.sender t).entry = none) :
    ItemMove s ((s.setItem e (some c)).setSender t (.keInsertQueue e)) e (.sender t) := by
  have hsender : ∀ j t', ((s.setItem e (some c)).setSender t (.keInsertQueue e)).HasItem j
      (.sender t') ↔ (t' = t ∧ j = e) ∨ (t' ≠ t ∧ s.HasItem j (.sender t')) := by
    intro j t'
    simp only [HasItem, setSender, setItem]
    by_cases ht : t' = t
    · subst ht
      simp [SenderPc.entry, eq_comm]
    · rw [Function.update_of_ne ht]
      simp [ht]
  refine ItemMove.of_left h (p := .free) hfree ?_ ((hsender e t).mpr (Or.inl ⟨rfl, rfl⟩)) ?_ ?_
  · intro j hj q
    cases q with
    | free =>
        simp only [HasItem, setSender, setItem]
        rw [Function.update_of_ne hj]
    | sender t' =>
        rw [hsender]
        by_cases ht : t' = t
        · subst ht
          simp [HasItem, hentry, hj]
        · simp [ht]
    | queue => exact Iff.rfl
    | worker w phase => exact Iff.rfl
    | drain phase => exact Iff.rfl
  · exact Or.inl (by simp [HasItem, setSender, setItem])
  · intro q hfree' hne hq
    cases q with
    | free => exact absurd rfl hfree'
    | sender t' =>
        have ht : t' ≠ t := fun ht => hne (ht ▸ rfl)
        simpa [ht] using (hsender e t').mp hq
    | queue => exact hq
    | worker w phase => exact hq
    | drain phase => exact hq

theorem insert_itemMove (h : Placed s.HasItem) {t : τ} {e : ι}
    (hpc : s.sender t = .keInsertQueue e) :
    ItemMove s ({ s with queue := s.queue ++ [e] }.setSender t .kphReleaseRundown) e .queue := by
  have hsender : ∀ j t', ({ s with queue := s.queue ++ [e] }.setSender t .kphReleaseRundown).HasItem
      j (.sender t') ↔ t' ≠ t ∧ s.HasItem j (.sender t') := by
    intro j t'
    simp only [HasItem, setSender]
    by_cases ht : t' = t
    · subst ht
      simp [SenderPc.entry]
    · rw [Function.update_of_ne ht]
      simp [ht]
  refine ItemMove.of_left h (p := .sender t) ?_ ?_ ?_ ?_ ?_
  · simp [HasItem, hpc, SenderPc.entry]
  · intro j hj q
    cases q with
    | free => exact Iff.rfl
    | sender t' =>
        rw [hsender]
        by_cases ht : t' = t
        · subst ht
          simp [HasItem, hpc, SenderPc.entry, hj.symm]
        · simp [ht]
    | queue => simp [HasItem, setSender, hj]
    | worker w phase => exact Iff.rfl
    | drain phase => exact Iff.rfl
  · simp [HasItem, setSender]
  · exact Or.inl (by simp [hsender])
  · intro q hne hqueue hq
    cases q with
    | free => exact hq
    | sender t' => exact ((hsender e t').mp hq).2
    | queue => exact absurd rfl hqueue
    | worker w phase => exact hq
    | drain phase => exact hq

/-! ## Queue threads -/

omit [DecidableEq τ] in
theorem itemStep_eq (e : ι) (c : QueueItem μ) (phase : ItemPhase) :
    (s.itemStep e c phase).sender = s.sender ∧ (s.itemStep e c phase).worker = s.worker ∧
      (s.itemStep e c phase).stop = s.stop ∧ (s.itemStep e c phase).queue = s.queue ∧
      (s.itemStep e c phase).chain = s.chain ∧ (s.itemStep e c phase).passed = s.passed ∧
      (s.itemStep e c phase).closing = s.closing ∧ (s.itemStep e c phase).holders = s.holders ∧
      (s.itemStep e c phase).abandoned = s.abandoned := by
  cases phase with
  | kphpCommsSendMessage =>
      obtain ⟨h₁, h₂, h₃, h₄, h₅, -, h₇, h₈, h₉, h₁₀⟩ := record_eq (s := s)
        (.kphpCommsSendMessage c.message c.targetClientProcess)
      exact ⟨h₁, h₂, h₃, h₄, h₅, h₇, h₈, h₉, h₁₀⟩
  | freeMessage =>
      obtain ⟨h₁, h₂, h₃, h₄, h₅, -, h₇, h₈, h₉, h₁₀⟩ := record_eq (s := s)
        (.free c.message c.nonPaged .sent)
      exact ⟨h₁, h₂, h₃, h₄, h₅, h₇, h₈, h₉, h₁₀⟩
  | freeItem => exact ⟨rfl, rfl, rfl, rfl, rfl, rfl, rfl, rfl, rfl⟩

omit [DecidableEq τ] in
theorem itemStep_item {e : ι} {c : QueueItem μ} (h : s.item e = some c) (phase : ItemPhase) :
    (∀ j, j ≠ e → (s.itemStep e c phase).item j = s.item j) ∧
      (s.itemStep e c phase).item e = phase.next.bind fun _ => some c := by
  cases phase with
  | kphpCommsSendMessage =>
      have hitem := (record_eq (s := s)
        (.kphpCommsSendMessage c.message c.targetClientProcess)).2.2.2.2.2.1
      exact ⟨fun j _ => congrFun hitem j, (congrFun hitem e).trans h⟩
  | freeMessage =>
      have hitem := (record_eq (s := s) (.free c.message c.nonPaged .sent)).2.2.2.2.2.1
      exact ⟨fun j _ => congrFun hitem j, (congrFun hitem e).trans h⟩
  | freeItem => exact ⟨fun j hj => Function.update_of_ne hj _ _, Function.update_self _ _ _⟩

variable [DecidableEq ω]

omit [DecidableEq τ] in
theorem remove_itemMove (h : Placed s.HasItem) {w : ω} {e : ι} {rest : List ι}
    (hpc : s.worker w = .keRemoveQueue) (hqueue : s.queue = e :: rest) (hnodup : s.queue.Nodup) :
    ItemMove s ({ s with queue := rest }.setWorker w (.item .kphpCommsSendMessage e)) e
      (.worker w .kphpCommsSendMessage) := by
  rw [hqueue, List.nodup_cons] at hnodup
  have hworker : ∀ j w' phase,
      ({ s with queue := rest }.setWorker w (.item .kphpCommsSendMessage e)).HasItem j
        (.worker w' phase) ↔ (w' = w ∧ phase = .kphpCommsSendMessage ∧ j = e) ∨
          (w' ≠ w ∧ s.HasItem j (.worker w' phase)) := by
    intro j w' phase
    simp only [HasItem, setWorker]
    by_cases hw : w' = w
    · subst hw
      simp [eq_comm]
    · rw [Function.update_of_ne hw]
      simp [hw]
  refine ItemMove.of_left h (p := .queue) ?_ ?_ ?_ ?_ ?_
  · simp [HasItem, hqueue]
  · intro j hj q
    cases q with
    | free => exact Iff.rfl
    | sender t => exact Iff.rfl
    | queue => simp [HasItem, setWorker, hqueue, hj]
    | worker w' phase =>
        rw [hworker]
        by_cases hw : w' = w
        · subst hw
          simp [HasItem, hpc, hj]
        · simp [hw]
    | drain phase => exact Iff.rfl
  · exact (hworker e w _).mpr (Or.inl ⟨rfl, rfl, rfl⟩)
  · exact Or.inl hnodup.1
  · intro q hne hne' hq
    cases q with
    | free => exact hq
    | sender t => exact hq
    | queue => exact absurd rfl hne
    | worker w' phase =>
        rcases (hworker e w' phase).mp hq with ⟨rfl, rfl, -⟩ | ⟨-, hold⟩
        · exact absurd rfl hne'
        · exact hold
    | drain phase => exact hq

omit [DecidableEq τ] in
theorem worker_itemMove (h : Placed s.HasItem) {w : ω} {e : ι} {c : QueueItem μ}
    {phase : ItemPhase} (hpc : s.worker w = .item phase e) (hitem : s.item e = some c) :
    ItemMove s ((s.itemStep e c phase).setWorker w (phase.next.elim .keRemoveQueue (.item · e))) e
      (ItemPlace.after (.worker w) phase) := by
  obtain ⟨hsender, hworker, hstop, hqueue, hchain, -⟩ := itemStep_eq (s := s) e c phase
  obtain ⟨hothers, hown⟩ := itemStep_item hitem phase
  have hat : s.HasItem e (.worker w phase) := hpc
  have hfree : ((s.itemStep e c phase).setWorker w
      (phase.next.elim .keRemoveQueue (.item · e))).item e = phase.next.bind fun _ => some c := hown
  have hw' : ∀ j w' p, ((s.itemStep e c phase).setWorker w
      (phase.next.elim .keRemoveQueue (.item · e))).HasItem j (.worker w' p) ↔
      (w' = w ∧ phase.next = some p ∧ j = e) ∨ (w' ≠ w ∧ s.HasItem j (.worker w' p)) := by
    intro j w' p
    simp only [HasItem, setWorker, hworker]
    by_cases hw : w' = w
    · subst hw
      cases phase <;> simp [ItemPhase.next, eq_comm]
    · rw [Function.update_of_ne hw]
      simp [hw]
  have hdrain : ∀ j p, ((s.itemStep e c phase).setWorker w
      (phase.next.elim .keRemoveQueue (.item · e))).Draining j p ↔ s.Draining j p :=
    draining_congr hstop hchain
  refine ItemMove.of_left h hat ?_ ?_ ?_ ?_
  · intro j hj q
    cases q with
    | free =>
        simp only [HasItem, setWorker]
        rw [hothers j hj]
    | sender t =>
        simp only [HasItem, setWorker]
        rw [hsender]
    | queue =>
        simp only [HasItem, setWorker]
        rw [hqueue]
    | worker w' p =>
        rw [hw']
        by_cases hw : w' = w
        · subst hw
          simp [HasItem, hpc, hj, hj.symm]
        · simp [hw]
    | drain p => exact hdrain j p
  · cases phase with
    | kphpCommsSendMessage => exact (hw' e w .freeMessage).mpr (Or.inl ⟨rfl, rfl, rfl⟩)
    | freeMessage => exact (hw' e w .freeItem).mpr (Or.inl ⟨rfl, rfl, rfl⟩)
    | freeItem => exact hfree
  · refine Or.inl ?_
    rw [hw']
    cases phase <;> simp [ItemPhase.next]
  · intro q hne hne' hq
    cases q with
    | free =>
        have hnone : phase.next = none := by
          simp only [HasItem, hfree] at hq
          cases hnext : phase.next with
          | none => rfl
          | some p => simp [hnext] at hq
        simp [ItemPlace.after, hnone] at hne'
    | sender t => simpa [HasItem, setWorker, hsender] using hq
    | queue => simpa [HasItem, setWorker, hqueue] using hq
    | worker w' p =>
        rcases (hw' e w' p).mp hq with ⟨rfl, hnext, -⟩ | ⟨-, hold⟩
        · simp [ItemPlace.after, hnext] at hne'
        · exact hold
    | drain p => exact (hdrain e p).mp hq

/-! ## `KphCommsStop` -/

omit [DecidableEq τ] [DecidableEq ω] in
theorem dropWhile_ne {before rest : List ι} {i : ι} (h : (before ++ i :: rest).Nodup) :
    (before ++ i :: rest).dropWhile (· ≠ i) = i :: rest := by
  have hbefore : ∀ j ∈ before, decide (j ≠ i) = true := by
    intro j hj
    have hne := (List.nodup_append.mp h).2.2 j hj i List.mem_cons_self
    simp [hne]
  rw [List.dropWhile_append_of_pos hbefore, List.dropWhile_cons_of_neg (by simp)]

omit [DecidableEq τ] [DecidableEq ω] in
theorem flink_eq {before rest : List ι} {i first : ι} (h : (before ++ i :: rest).Nodup)
    (hfirst : (before ++ i :: rest).head? = some first) :
    flink (before ++ i :: rest) i = rest.head?.getD first := by
  have hindex : (before ++ i :: rest).idxOf i = before.length := by
    rw [List.idxOf_append_of_notMem, List.idxOf_cons_self, Nat.add_zero]
    intro hmem
    exact (List.nodup_append.mp h).2.2 i hmem i List.mem_cons_self rfl
  rw [flink, hindex]
  cases rest with
  | nil =>
      have hlength : (before.length + 1) % (before ++ [i]).length = 0 := by simp
      rw [hlength, List.getD_eq_getElem?_getD, ← List.head?_eq_getElem?, hfirst]
      rfl
  | cons r rest =>
      have hlength : (before.length + 1) % (before ++ i :: r :: rest).length =
          before.length + 1 := by
        refine Nat.mod_eq_of_lt ?_
        simp
      rw [hlength, List.getD_eq_getElem?_getD, List.getElem?_append_right (by omega)]
      simp

omit [DecidableEq τ] [DecidableEq ω] in
theorem draining_iff (s : CommsState τ ω μ ι) {phase : ItemPhase} {item entry first : ι}
    {before rest : List ι} (hstop : s.stop = .drain phase item entry first) (hchain : s.chain = before ++ item :: rest)
    (hnodup : s.chain.Nodup) (i : ι) (p : ItemPhase) :
    s.Draining i p ↔ (i = item ∧ p = phase) ∨ (p = .kphpCommsSendMessage ∧ i ∈ rest) := by
  rw [hchain] at hnodup
  rw [Draining, hstop, hchain]
  dsimp only
  rw [dropWhile_ne hnodup, List.tail_cons]

omit [DecidableEq τ] [DecidableEq ω] in
theorem drain_itemMove (h : Placed s.HasItem) {e : ι} {c : QueueItem μ} {phase : ItemPhase}
    {rest : List ι} (hitem : s.item e = some c) (hmem : e ∉ rest)
    (hold : ∀ i p, s.Draining i p ↔ (i = e ∧ p = phase) ∨ (p = .kphpCommsSendMessage ∧ i ∈ rest))
    (hnew : ∀ i p, s'.Draining i p ↔ (i = e ∧ phase.next = some p) ∨
      (p = .kphpCommsSendMessage ∧ i ∈ rest))
    (hsender : s'.sender = s.sender) (hworker : s'.worker = s.worker) (hqueue : s'.queue = s.queue)
    (hstep : s'.item = (s.itemStep e c phase).item) :
    ItemMove s s' e (ItemPlace.after .drain phase) := by
  obtain ⟨hothers, hown⟩ := itemStep_item hitem phase
  have hat : s.HasItem e (.drain phase) := (hold e phase).mpr (Or.inl ⟨rfl, rfl⟩)
  have hself : ∀ p, s'.Draining e p ↔ phase.next = some p := by
    intro p
    rw [hnew]
    simp [hmem]
  refine ItemMove.of_left h hat ?_ ?_ ?_ ?_
  · intro j hj q
    cases q with
    | free =>
        simp only [HasItem, hstep]
        rw [hothers j hj]
    | sender t => simp only [HasItem, hsender]
    | queue => simp only [HasItem, hqueue]
    | worker w p => simp only [HasItem, hworker]
    | drain p =>
        simp only [HasItem, hold, hnew]
        simp [hj]
  · cases phase with
    | kphpCommsSendMessage => exact (hself .freeMessage).mpr rfl
    | freeMessage => exact (hself .freeItem).mpr rfl
    | freeItem =>
        simp only [ItemPlace.after, ItemPhase.next, Option.elim_none, HasItem, hstep]
        exact hown
  · refine Or.inl ?_
    simp only [HasItem, hself]
    cases phase <;> simp [ItemPhase.next]
  · intro q hne hne' hq
    cases q with
    | free =>
        have hnone : phase.next = none := by
          simp only [HasItem, hstep, hown] at hq
          cases hnext : phase.next with
          | none => rfl
          | some p => simp [hnext] at hq
        simp [ItemPlace.after, hnone] at hne'
    | sender t => simpa [HasItem, hsender] using hq
    | queue => simpa [HasItem, hqueue] using hq
    | worker w p => simpa [HasItem, hworker] using hq
    | drain p =>
        have hnext := (hself p).mp hq
        simp [ItemPlace.after, hnext] at hne'

omit [DecidableEq τ] [DecidableEq ω] in
theorem rundown_places (h : Placed s.HasItem) (hnone : ∀ i p, ¬ s.Draining i p)
    (hsender : s'.sender = s.sender) (hworker : s'.worker = s.worker) (hitem : s'.item = s.item)
    (hqueue : s'.queue = [])
    (hdrain : ∀ i p, s'.Draining i p ↔ p = .kphpCommsSendMessage ∧ i ∈ s.queue) :
    Placed s'.HasItem ∧ ∀ i p, s'.AtPhase i p ↔ s.AtPhase i p := by
  have hmoved : ∀ i, s.HasItem i .queue →
      ∀ q, s'.HasItem i q ↔ q = .drain .kphpCommsSendMessage := by
    intro i hi q
    cases q with
    | free =>
        have hnot := h.not hi (q := .free) (by simp)
        simp only [HasItem, hitem, reduceCtorEq, iff_false]
        exact hnot
    | sender t =>
        have hnot := h.not hi (q := .sender t) (by simp)
        simp only [HasItem, hsender, reduceCtorEq, iff_false]
        exact hnot
    | queue => simp [HasItem, hqueue]
    | worker w p =>
        have hnot := h.not hi (q := .worker w p) (by simp)
        simp only [HasItem, hworker, reduceCtorEq, iff_false]
        exact hnot
    | drain p =>
        have hmem : i ∈ s.queue := hi
        simp [HasItem, hdrain, hmem]
  have hkept : ∀ i, i ∉ s.queue → ∀ q, s'.HasItem i q ↔ s.HasItem i q := by
    intro i hi q
    cases q with
    | free => simp only [HasItem, hitem]
    | sender t => simp only [HasItem, hsender]
    | queue => simp [HasItem, hqueue, hi]
    | worker w p => simp only [HasItem, hworker]
    | drain p => simp [HasItem, hdrain, hi, hnone]
  have hplaced : Placed s'.HasItem := by
    intro i
    by_cases hi : i ∈ s.queue
    · exact ⟨_, hmoved i hi⟩
    · obtain ⟨p, hp⟩ := h i
      exact ⟨p, fun q => (hkept i hi q).trans (hp q)⟩
  refine ⟨hplaced, ?_⟩
  intro i p
  by_cases hi : i ∈ s.queue
  · rw [atPhase_iff hplaced ((hmoved i hi _).mpr rfl), atPhase_iff h (p := .queue) hi]
    rfl
  · exact atPhase_congr (hkept i hi) p

end CommsState

/-! ## What every step keeps -/

variable {nonPaged : μ → Bool} {threads : List ω}

theorem FlowOk.stage_lt (h : FlowOk threads s) {t : τ} (ht : (s.sender t).holdsRundown = true) :
    s.stop.stage < 2 := by
  by_contra hstage
  have hmem := h.holders t ht
  rw [h.noHolders (by omega)] at hmem
  exact List.not_mem_nil hmem

theorem FlowOk.sender (h : FlowOk threads s) (hworker : s'.worker = s.worker)
    (hstop : s'.stop = s.stop) (hchain : s'.chain = s.chain) (habandoned : s'.abandoned = s.abandoned)
    (hclosing : s'.closing = s.closing)
    (hlate : ∀ e ∈ s'.lateEvents, ∃ m n, e = .free m n .noRundown)
    (hholders : ∀ t, (s'.sender t).holdsRundown = true → t ∈ s'.holders)
    (hnodup : s'.queue.Nodup) (hno : 2 ≤ s.stop.stage → s'.holders = [])
    (hqueue : 3 ≤ s.stop.stage → s'.queue = []) : FlowOk threads s' where
  late := hlate
  created := by rw [hworker]; exact h.created
  holders := hholders
  queueNodup := hnodup
  chainNodup := by rw [hchain]; exact h.chainNodup
  closing := by rw [hclosing, hstop]; exact h.closing
  noHolders := by rw [hstop]; exact hno
  abandoned := by rw [habandoned, hstop]; exact h.abandoned
  queueEmpty := by rw [hstop]; exact hqueue
  terminated := by rw [hworker, hstop]; exact h.terminated
  waiting := by rw [hworker, hstop, hchain]; exact h.waiting
  draining := by rw [hstop, hchain]; exact h.draining

theorem FlowOk.pastRundown {pc : StopPc ω ι} (h : FlowOk threads s)
    (hstage : 3 ≤ s.stop.stage) (hlate : ∀ e ∈ s'.lateEvents, e ∈ s.lateEvents)
    (hsender : s'.sender = s.sender) (hworker : s'.worker = s.worker) (hstop : s'.stop = pc)
    (hclosing : s'.closing = s.closing) (hholders : s'.holders = s.holders)
    (hqueue : s'.queue = s.queue) (habandoned : s'.abandoned = s.abandoned)
    (hchain : s'.chain = s.chain) (hpc : 3 ≤ pc.stage)
    (hterminated : 4 ≤ pc.stage → ∀ w, s.worker w = .terminated)
    (hwaiting : ∀ entry rest, pc = .keWaitForSingleObject entry rest →
      entry = s.chain.head? ∧ ∀ w, w ∉ rest → s.worker w = .terminated)
    (hdraining : ∀ phase item entry first, pc = .drain phase item entry first →
      ∃ before rest, s.chain = before ++ item :: rest ∧ s.chain.head? = some first ∧
        entry = rest.head?.getD first) : FlowOk threads s' where
  late := fun e he => h.late e (hlate e he)
  created := by rw [hworker]; exact h.created
  holders := by rw [hsender, hholders]; exact h.holders
  queueNodup := by rw [hqueue]; exact h.queueNodup
  chainNodup := by rw [hchain]; exact h.chainNodup
  closing := by
    rw [hclosing, h.closing, hstop]
    omega
  noHolders := fun _ => by rw [hholders]; exact h.noHolders (by omega)
  abandoned := by
    rw [habandoned, h.abandoned, hstop]
    omega
  queueEmpty := fun _ => by rw [hqueue]; exact h.queueEmpty (by omega)
  terminated := by rw [hworker, hstop]; exact hterminated
  waiting := by rw [hworker, hstop, hchain]; exact hwaiting
  draining := by rw [hstop, hchain]; exact hdraining

theorem CommsState.PoolsOk.step (h : s.PoolsOk nonPaged)
    (hsender : ∀ t c, (s'.sender t).carried = some c →
      (∃ t', (s.sender t').carried = some c) ∨ c.nonPaged = nonPaged c.message)
    (hitem : ∀ i c, s'.item i = some c →
      (∃ j, s.item j = some c) ∨ ∃ t, (s.sender t).carried = some c)
    (hfree : ∀ m n reason, .free m n reason ∈ s'.events ∨ .free m n reason ∈ s'.lateEvents →
      (.free m n reason ∈ s.events ∨ .free m n reason ∈ s.lateEvents) ∨ n = nonPaged m) :
    s'.PoolsOk nonPaged where
  sender := by
    intro t c hc
    rcases hsender t c hc with ⟨t', ht'⟩ | hpool
    · exact h.sender t' c ht'
    · exact hpool
  item := by
    intro i c hc
    rcases hitem i c hc with ⟨j, hj⟩ | ⟨t, ht⟩
    · exact h.item j c hj
    · exact h.sender t c ht
  free := by
    intro m n reason hm
    exact (hfree m n reason hm).elim (h.free m n reason) id

variable [DecidableEq μ] [DecidableEq ι]

structure CommsInv (nonPaged : μ → Bool) (threads : List ω) (s : CommsState τ ω μ ι) : Prop where
  items : Placed s.HasItem
  messages : s.MessagesOk
  pools : s.PoolsOk nonPaged
  flow : FlowOk threads s

variable [DecidableEq τ]

theorem CommsInv.quiet (h : CommsInv nonPaged threads s) {t : τ} {pc : SenderPc μ ι}
    (holders : List τ) (hcarried : pc.carried = (s.sender t).carried)
    (hentry : pc.entry = (s.sender t).entry)
    (hself : pc.holdsRundown = true → t ∈ holders)
    (hothers : ∀ t', t' ≠ t → t' ∈ s.holders → t' ∈ holders)
    (hno : 2 ≤ s.stop.stage → holders = []) :
    CommsInv nonPaged threads ({ s with holders := holders }.setSender t pc) := by
  have hsame : ∀ t', (({ s with holders := holders }.setSender t pc).sender t').carried =
      (s.sender t').carried := by
    intro t'
    simp only [CommsState.setSender]
    by_cases ht : t' = t
    · rw [ht, Function.update_self, hcarried]
    · rw [Function.update_of_ne ht]
  have hplaces : ∀ i p, ({ s with holders := holders }.setSender t pc).HasItem i p ↔
      s.HasItem i p := by
    refine CommsState.hasItem_congr rfl ?_ rfl rfl fun _ _ => Iff.rfl
    intro t'
    simp only [CommsState.setSender]
    by_cases ht : t' = t
    · rw [ht, Function.update_self, hentry]
    · rw [Function.update_of_ne ht]
  refine ⟨h.items.congr hplaces, ?_, ?_, ?_⟩
  · exact h.messages.congr rfl hsame rfl
      (fun i phase => CommsState.atPhase_congr (hplaces i) phase) fun _ => rfl
  · refine h.pools.step ?_ (fun i c hc => Or.inl ⟨i, hc⟩) fun _ _ _ hm => Or.inl hm
    intro t' c hc
    exact Or.inl ⟨t', (hsame t').symm.trans hc⟩
  · refine h.flow.sender rfl rfl rfl rfl rfl h.flow.late ?_ h.flow.queueNodup hno h.flow.queueEmpty
    intro t' ht'
    simp only [CommsState.setSender] at ht' ⊢
    by_cases ht : t' = t
    · rw [ht, Function.update_self] at ht'
      exact ht ▸ hself ht'
    · rw [Function.update_of_ne ht] at ht'
      exact hothers t' ht (h.flow.holders t' ht')

theorem CommsInv.send (h : CommsInv nonPaged threads s) {t : τ} {message : μ}
    {target : Option Nat} (hidle : s.sender t = .idle) (hnew : message ∉ s.passed) :
    CommsInv nonPaged threads ({ s with passed := message :: s.passed }.setSender t
      (.kphAcquireRundown ⟨message, nonPaged message, target⟩)) := by
  have hother : ∀ t', t' ≠ t → ({ s with passed := message :: s.passed }.setSender t
      (.kphAcquireRundown ⟨message, nonPaged message, target⟩)).sender t' = s.sender t' :=
    fun t' ht => Function.update_of_ne ht _ _
  have hself : ({ s with passed := message :: s.passed }.setSender t
      (.kphAcquireRundown ⟨message, nonPaged message, target⟩)).sender t =
        .kphAcquireRundown ⟨message, nonPaged message, target⟩ := Function.update_self _ _ _
  have hplaces : ∀ i p, ({ s with passed := message :: s.passed }.setSender t
      (.kphAcquireRundown ⟨message, nonPaged message, target⟩)).HasItem i p ↔ s.HasItem i p := by
    refine CommsState.hasItem_congr rfl ?_ rfl rfl fun _ _ => Iff.rfl
    intro t'
    by_cases ht : t' = t
    · rw [ht, hself, hidle]
      rfl
    · rw [hother t' ht]
  refine ⟨h.items.congr hplaces, ?_, ?_, ?_⟩
  · refine h.messages.pass (c := ⟨message, nonPaged message, target⟩) (t := t) hnew (by rw [hidle]; rfl)
      rfl (by rw [hself]; rfl) ?_ rfl (fun i phase => CommsState.atPhase_congr (hplaces i) phase)
      fun _ => rfl
    intro t' ht
    rw [hother t' ht]
  · refine h.pools.step ?_ (fun i c hc => Or.inl ⟨i, hc⟩) fun _ _ _ hm => Or.inl hm
    intro t' c hc
    by_cases ht : t' = t
    · rw [ht, hself] at hc
      obtain rfl := Option.some.inj hc
      exact Or.inr rfl
    · rw [hother t' ht] at hc
      exact Or.inl ⟨t', hc⟩
  · refine h.flow.sender rfl rfl rfl rfl rfl h.flow.late ?_ h.flow.queueNodup h.flow.noHolders
      h.flow.queueEmpty
    intro t' ht'
    by_cases ht : t' = t
    · rw [ht, hself] at ht'
      simp [SenderPc.holdsRundown] at ht'
    · rw [hother t' ht] at ht'
      exact h.flow.holders t' ht'

theorem CommsInv.drop (h : CommsInv nonPaged threads s) {t : τ} {c : QueueItem μ}
    {pc : SenderPc μ ι} {reason : FreeReason} (hcarried : (s.sender t).carried = some c)
    (hentry : (s.sender t).entry = none) (hpc : pc.carried = none) (hpc' : pc.entry = none)
    (hholds : pc.holdsRundown = true → (s.sender t).holdsRundown = true)
    (hreason : s.stop = .returned → reason = .noRundown) :
    CommsInv nonPaged threads ((s.kphFreeMessage c c.nonPaged reason).setSender t pc) := by
  obtain ⟨hsender, hworker, hstop, hqueue, hchain, hitem, hpassed, hclosing, hholders, habandoned⟩ :=
    CommsState.record_eq (s := s) (.free c.message c.nonPaged reason)
  have hother : ∀ t', t' ≠ t →
      ((s.kphFreeMessage c c.nonPaged reason).setSender t pc).sender t' = s.sender t' := by
    intro t' ht
    exact (Function.update_of_ne ht _ _).trans (congrFun hsender t')
  have hself : ((s.kphFreeMessage c c.nonPaged reason).setSender t pc).sender t = pc :=
    Function.update_self _ _ _
  have hplaces : ∀ i p, ((s.kphFreeMessage c c.nonPaged reason).setSender t pc).HasItem i p ↔
      s.HasItem i p := by
    refine CommsState.hasItem_congr hitem ?_ hqueue hworker
      (CommsState.draining_congr hstop hchain)
    intro t'
    by_cases ht : t' = t
    · rw [ht, hself, hentry, hpc']
    · rw [hother t' ht]
  refine ⟨h.items.congr hplaces, ?_, ?_, ?_⟩
  · refine h.messages.drop hcarried hpassed (by rw [hself]; exact hpc) ?_ hitem
      (fun i phase => CommsState.atPhase_congr (hplaces i) phase)
      fun kind => CommsState.count_record _ kind
    intro t' ht
    rw [hother t' ht]
  · refine h.pools.step ?_ ?_ ?_
    · intro t' c' hc'
      by_cases ht : t' = t
      · rw [ht, hself, hpc] at hc'
        cases hc'
      · rw [hother t' ht] at hc'
        exact Or.inl ⟨t', hc'⟩
    · intro i c' hc'
      exact Or.inl ⟨i, (congrFun hitem i).symm.trans hc'⟩
    · intro m n r hm
      refine ((CommsState.mem_record _ _).mp hm).imp_right ?_
      intro heq
      cases heq
      exact h.pools.sender t c hcarried
  · refine h.flow.sender hworker hstop hchain habandoned hclosing ?_ ?_ ?_ ?_ ?_
    · intro e he
      rcases CommsState.mem_late_record he with he | ⟨hreturned, rfl⟩
      · exact h.flow.late e he
      · rw [hreason hreturned]
        exact ⟨_, _, rfl⟩
    · intro t' ht'
      refine hholders.symm ▸ h.flow.holders t' ?_
      by_cases ht : t' = t
      · rw [ht, hself] at ht'
        exact ht ▸ hholds ht'
      · rwa [hother t' ht] at ht'
    · exact hqueue.symm ▸ h.flow.queueNodup
    · exact fun hstage => hholders.trans (h.flow.noHolders hstage)
    · exact fun hstage => hqueue.trans (h.flow.queueEmpty hstage)

theorem CommsInv.senderStep (h : CommsInv nonPaged threads s) (t : τ) {allocated : Option ι}
    (hfree : ∀ entry ∈ allocated, s.item entry = none) :
    CommsInv nonPaged threads (s.senderStep t allocated) := by
  have hkeep : ∀ holders : List τ, holders = s.holders → ∀ t', t' ≠ t → t' ∈ s.holders →
      t' ∈ holders := by
    rintro _ rfl t' _ ht'
    exact ht'
  rw [CommsState.senderStep]
  cases hpc : s.sender t with
  | idle => exact h
  | kphAcquireRundown c =>
      dsimp only
      split
      · exact h.quiet s.holders (by rw [hpc]; rfl) (by rw [hpc]; rfl)
          (fun hh => absurd hh (by simp [SenderPc.holdsRundown])) (hkeep _ rfl) h.flow.noHolders
      · next hopen =>
          refine h.quiet (t :: s.holders) (by rw [hpc]; rfl) (by rw [hpc]; rfl) (fun _ => List.mem_cons_self)
            (fun t' _ ht' => List.mem_cons_of_mem _ ht') ?_
          intro hstage
          exact absurd (h.flow.closing.mpr (by omega)) hopen
  | dropNoRundown c =>
      exact h.drop (by rw [hpc]; rfl) (by rw [hpc]; rfl) rfl rfl
        (fun hh => absurd hh (by simp [SenderPc.holdsRundown])) fun _ => rfl
  | kphpAllocateMessageQueueItem c =>
      have hholds : (s.sender t).holdsRundown = true := by
        rw [hpc]
        rfl
      dsimp only
      cases allocated with
      | none =>
          exact h.quiet s.holders (by rw [hpc]; rfl) (by rw [hpc]; rfl)
            (fun _ => h.flow.holders t hholds) (hkeep _ rfl) h.flow.noHolders
      | some e =>
          have hnone := hfree e rfl
          have hentry : (s.sender t).entry = none := by
            rw [hpc]
            rfl
          have hmove := CommsState.allocate_itemMove h.items (c := c) hnone hentry
          have hother : ∀ t', t' ≠ t →
              ((s.setItem e (some c)).setSender t (.keInsertQueue e)).sender t' = s.sender t' :=
            fun t' ht => Function.update_of_ne ht _ _
          have hself : ((s.setItem e (some c)).setSender t (.keInsertQueue e)).sender t =
              .keInsertQueue e := Function.update_self _ _ _
          have hcarried : (s.sender t).carried = some c := by
            rw [hpc]
            rfl
          refine ⟨hmove.placed h.items, ?_, ?_, ?_⟩
          · refine h.messages.allocate hcarried rfl (by rw [hself]; rfl) ?_ hnone
              (Function.update_self _ _ _) (fun i hi => Function.update_of_ne hi _ _)
              (fun i hi phase => hmove.atPhase_other hi phase) ?_ fun _ => rfl
            · intro t' ht
              rw [hother t' ht]
            · intro phase
              rw [hmove.atPhase_self]
              simp [ItemPlace.phase, eq_comm]
          · refine h.pools.step ?_ ?_ fun _ _ _ hm => Or.inl hm
            · intro t' c' hc'
              by_cases ht : t' = t
              · rw [ht, hself] at hc'
                cases hc'
              · rw [hother t' ht] at hc'
                exact Or.inl ⟨t', hc'⟩
            · intro i c' hc'
              by_cases hi : i = e
              · subst hi
                have hown : ((s.setItem i (some c)).setSender t (.keInsertQueue i)).item i = some c :=
                  Function.update_self _ _ _
                obtain rfl := Option.some.inj (hown.symm.trans hc')
                exact Or.inr ⟨t, hcarried⟩
              · exact Or.inl ⟨i, (Function.update_of_ne hi _ _).symm.trans hc'⟩
          · refine h.flow.sender rfl rfl rfl rfl rfl h.flow.late ?_ h.flow.queueNodup
              h.flow.noHolders h.flow.queueEmpty
            intro t' ht'
            by_cases ht : t' = t
            · exact ht ▸ h.flow.holders t hholds
            · rw [hother t' ht] at ht'
              exact h.flow.holders t' ht'
  | dropNoItem c =>
      have hholds : (s.sender t).holdsRundown = true := by
        rw [hpc]
        rfl
      refine h.drop (by rw [hpc]; rfl) (by rw [hpc]; rfl) rfl rfl (fun _ => hholds) ?_
      intro hreturned
      have hstage := h.flow.stage_lt hholds
      simp [hreturned, StopPc.stage] at hstage
  | keInsertQueue e =>
      have hholds : (s.sender t).holdsRundown = true := by
        rw [hpc]
        rfl
      have hstage := h.flow.stage_lt hholds
      have hat : s.HasItem e (.sender t) := by
        rw [CommsState.HasItem, hpc]
        rfl
      have hmove := CommsState.insert_itemMove h.items hpc
      have hcarried : ∀ t', (({ s with queue := s.queue ++ [e] }.setSender t
          .kphReleaseRundown).sender t').carried = (s.sender t').carried := by
        intro t'
        simp only [CommsState.setSender]
        by_cases ht : t' = t
        · rw [ht, Function.update_self, hpc]
          rfl
        · rw [Function.update_of_ne ht]
      refine ⟨hmove.placed h.items, ?_, ?_, ?_⟩
      · exact h.messages.congr rfl hcarried rfl
          (fun i phase => hmove.atPhase_same h.items hat rfl i phase) fun _ => rfl
      · refine h.pools.step ?_ (fun i c hc => Or.inl ⟨i, hc⟩) fun _ _ _ hm => Or.inl hm
        intro t' c hc
        exact Or.inl ⟨t', (hcarried t').symm.trans hc⟩
      · refine h.flow.sender rfl rfl rfl rfl rfl h.flow.late ?_ ?_ h.flow.noHolders ?_
        · intro t' ht'
          by_cases ht : t' = t
          · exact ht ▸ h.flow.holders t hholds
          · have hsame : ({ s with queue := s.queue ++ [e] }.setSender t
                .kphReleaseRundown).sender t' = s.sender t' := Function.update_of_ne ht _ _
            rw [hsame] at ht'
            exact h.flow.holders t' ht'
        · have hnot : ¬ s.HasItem e .queue := h.items.not hat (q := .queue) (by simp)
          refine List.nodup_append.mpr ⟨h.flow.queueNodup, List.nodup_singleton _, ?_⟩
          intro j hj j' hj'
          rw [List.mem_singleton.mp hj']
          rintro rfl
          exact hnot hj
        · intro hlate
          omega
  | kphReleaseRundown =>
      refine h.quiet (s.holders.erase t) (by rw [hpc]; rfl) (by rw [hpc]; rfl)
        (fun hh => absurd hh (by simp [SenderPc.holdsRundown])) ?_ ?_
      · intro t' ht ht'
        exact (List.mem_erase_of_ne ht).mpr ht'
      · intro hstage
        rw [h.flow.noHolders hstage]
        rfl

/-! ## The threads that have items -/

omit [DecidableEq μ] [DecidableEq τ] in
theorem CommsState.PoolsOk.itemStep (h : s.PoolsOk nonPaged) {e : ι} {c : QueueItem μ}
    (hitem : s.item e = some c) (phase : ItemPhase) (hsender : s'.sender = s.sender)
    (hstep : s'.item = (s.itemStep e c phase).item)
    (hevents : s'.events = (s.itemStep e c phase).events)
    (hlate : s'.lateEvents = (s.itemStep e c phase).lateEvents) : s'.PoolsOk nonPaged := by
  obtain ⟨hothers, hown⟩ := CommsState.itemStep_item hitem phase
  refine h.step ?_ ?_ ?_
  · intro t c' hc'
    exact Or.inl ⟨t, by rwa [hsender] at hc'⟩
  · intro i c' hc'
    rw [hstep] at hc'
    by_cases hi : i = e
    · subst hi
      rw [hown] at hc'
      obtain ⟨_, -, heq⟩ := Option.bind_eq_some_iff.mp hc'
      exact Or.inl ⟨i, hitem.trans heq⟩
    · exact Or.inl ⟨i, (hothers i hi).symm.trans hc'⟩
  · intro m n r hm
    rw [hevents, hlate] at hm
    cases phase with
    | kphpCommsSendMessage =>
        refine ((CommsState.mem_record _ _).mp hm).imp_right ?_
        intro heq
        cases heq
    | freeMessage =>
        refine ((CommsState.mem_record _ _).mp hm).imp_right ?_
        intro heq
        cases heq
        exact h.item e c hitem
    | freeItem => exact Or.inl hm

omit [DecidableEq μ] [DecidableEq τ] in
theorem late_itemStep {e : ι} {c : QueueItem μ} (phase : ItemPhase) (hstop : s.stop ≠ .returned)
    {event : CommsEvent μ} (h : event ∈ (s.itemStep e c phase).lateEvents) :
    event ∈ s.lateEvents := by
  cases phase with
  | kphpCommsSendMessage =>
      exact (CommsState.mem_late_record h).resolve_right fun hr => hstop hr.1
  | freeMessage => exact (CommsState.mem_late_record h).resolve_right fun hr => hstop hr.1
  | freeItem => exact h

omit [DecidableEq τ] in
theorem CommsState.MessagesOk.itemMove (h : s.MessagesOk) (hitems : Placed s.HasItem) {e : ι}
    {c : QueueItem μ} {phase : ItemPhase} {place : ItemPhase → ItemPlace τ ω}
    (hplace : ∀ p, (place p).phase = some p) (hitem : s.item e = some c)
    (hat : s.HasItem e (place phase))
    (hmove : CommsState.ItemMove s s' e (ItemPlace.after place phase))
    (hsender : s'.sender = s.sender) (hpassed : s'.passed = s.passed)
    (hstep : s'.item = (s.itemStep e c phase).item)
    (hevents : s'.events = (s.itemStep e c phase).events)
    (hlate : s'.lateEvents = (s.itemStep e c phase).lateEvents) : s'.MessagesOk := by
  refine h.itemStep (i := e) hitem ?_ hpassed (fun t => by rw [hsender]) hstep
    (fun j hj p => hmove.atPhase_other hj p) ?_ ?_
  · intro p
    rw [CommsState.atPhase_iff hitems hat, hplace]
    exact ⟨fun heq => (Option.some.inj heq).symm, fun heq => congrArg some heq.symm⟩
  · intro p
    rw [hmove.atPhase_self, ItemPlace.after]
    cases phase with
    | kphpCommsSendMessage => simp [ItemPhase.next, hplace]
    | freeMessage => simp [ItemPhase.next, hplace]
    | freeItem => simp [ItemPhase.next, ItemPlace.phase]
  · intro kind
    rw [CommsState.count, CommsState.count, hevents, hlate]

variable [DecidableEq ω]

omit [DecidableEq μ] [DecidableEq τ] [DecidableEq ι] in
theorem FlowOk.worker (h : FlowOk threads s) {w : ω} {pc : WorkerPc ι}
    (hw : s.worker w ≠ .terminated) (hworker : s'.worker = Function.update s.worker w pc)
    (hstop : s'.stop = s.stop) (hchain : s'.chain = s.chain) (habandoned : s'.abandoned = s.abandoned)
    (hclosing : s'.closing = s.closing) (hsender : s'.sender = s.sender)
    (hholders : s'.holders = s.holders) (hlate : ∀ e ∈ s'.lateEvents, e ∈ s.lateEvents)
    (hnodup : s'.queue.Nodup) (hqueue : 3 ≤ s.stop.stage → s'.queue = []) : FlowOk threads s' := by
  have hkept : ∀ w', s.worker w' = .terminated → s'.worker w' = .terminated := by
    intro w' hw'
    rw [hworker, Function.update_of_ne, hw']
    rintro rfl
    exact hw hw'
  exact {
    late := fun e he => h.late e (hlate e he)
    created := fun w' hw' => hkept w' (h.created w' hw')
    holders := by rw [hsender, hholders]; exact h.holders
    queueNodup := hnodup
    chainNodup := by rw [hchain]; exact h.chainNodup
    closing := by rw [hclosing, hstop]; exact h.closing
    noHolders := by rw [hstop, hholders]; exact h.noHolders
    abandoned := by rw [habandoned, hstop]; exact h.abandoned
    queueEmpty := by rw [hstop]; exact hqueue
    terminated := by
      rw [hstop]
      exact fun hstage w' => hkept w' (h.terminated hstage w')
    waiting := by
      rw [hstop, hchain]
      intro entry rest hwait
      obtain ⟨hentry, hdone⟩ := h.waiting entry rest hwait
      exact ⟨hentry, fun w' hw' => hkept w' (hdone w' hw')⟩
    draining := by rw [hstop, hchain]; exact h.draining }

omit [DecidableEq τ] in
theorem CommsInv.workerStep (h : CommsInv nonPaged threads s) {w : ω}
    (hstep : s.workerStep w = some s') : CommsInv nonPaged threads s' := by
  rw [CommsState.workerStep] at hstep
  cases hpc : s.worker w with
  | terminated => simp [hpc] at hstep
  | keRemoveQueue =>
      simp only [hpc] at hstep
      have hw : s.worker w ≠ .terminated := by simp [hpc]
      split at hstep
      · obtain rfl := Option.some.inj hstep
        have hplaces : ∀ i p, (s.setWorker w .terminated).HasItem i p ↔ s.HasItem i p := by
          intro i p
          cases p with
          | free => exact Iff.rfl
          | sender t => exact Iff.rfl
          | queue => exact Iff.rfl
          | worker w' phase =>
              simp only [CommsState.HasItem, CommsState.setWorker]
              by_cases hw' : w' = w
              · subst hw'
                simp [hpc]
              · rw [Function.update_of_ne hw']
          | drain phase => exact Iff.rfl
        refine ⟨h.items.congr hplaces, ?_, ⟨h.pools.sender, h.pools.item, h.pools.free⟩, ?_⟩
        · exact h.messages.congr rfl (fun _ => rfl) rfl
            (fun i phase => CommsState.atPhase_congr (hplaces i) phase) fun _ => rfl
        · exact h.flow.worker hw rfl rfl rfl rfl rfl rfl rfl (fun _ he => he) h.flow.queueNodup
            h.flow.queueEmpty
      · next hopen =>
          cases hqueue : s.queue with
          | nil => simp [hqueue] at hstep
          | cons e rest =>
              simp only [hqueue, Option.some.injEq] at hstep
              subst hstep
              have hnodup := h.flow.queueNodup
              have hat : s.HasItem e .queue := by simp [CommsState.HasItem, hqueue]
              have hmove := CommsState.remove_itemMove h.items hpc hqueue hnodup
              rw [hqueue] at hnodup
              refine ⟨hmove.placed h.items, ?_, ⟨h.pools.sender, h.pools.item, h.pools.free⟩, ?_⟩
              · exact h.messages.congr rfl (fun _ => rfl) rfl
                  (fun i phase => hmove.atPhase_same h.items hat rfl i phase) fun _ => rfl
              · refine h.flow.worker hw rfl rfl rfl rfl rfl rfl rfl (fun _ he => he)
                  (List.nodup_cons.mp hnodup).2 ?_
                intro hstage
                exact absurd (h.flow.abandoned.mpr hstage) hopen
  | item phase e =>
      simp only [hpc, Option.map_eq_some_iff] at hstep
      obtain ⟨c, hitem, rfl⟩ := hstep
      have hw : s.worker w ≠ .terminated := by simp [hpc]
      have hrunning : s.stop ≠ .returned := by
        intro hreturned
        exact hw (h.flow.terminated (by simp [hreturned, StopPc.stage]) w)
      obtain ⟨hsender, hworker, hstop, hqueue, hchain, hpassed, hclosing, hholders, habandoned⟩ :=
        CommsState.itemStep_eq (s := s) e c phase
      have hmove := CommsState.worker_itemMove h.items hpc hitem
      refine ⟨hmove.placed h.items, ?_, ?_, ?_⟩
      · exact h.messages.itemMove h.items (fun _ => rfl) hitem (show s.HasItem e (.worker w phase)
          from hpc) hmove hsender hpassed rfl rfl rfl
      · exact h.pools.itemStep hitem phase hsender rfl rfl rfl
      · have hupdate : ((s.itemStep e c phase).setWorker w
            (phase.next.elim .keRemoveQueue (.item · e))).worker =
              Function.update s.worker w (phase.next.elim .keRemoveQueue (.item · e)) := by
          rw [← hworker]
          rfl
        refine h.flow.worker hw hupdate hstop hchain habandoned hclosing hsender hholders
          (fun event he => late_itemStep phase hrunning he) ?_ ?_
        · exact hqueue.symm ▸ h.flow.queueNodup
        · exact fun hstage => hqueue.trans (h.flow.queueEmpty hstage)

/-! ## `KphCommsStop` goes on -/

omit [DecidableEq τ] [DecidableEq ω] in
theorem CommsInv.stopAt (h : CommsInv nonPaged threads s) {pc : StopPc ω ι} (closing : Bool)
    (hdrain : ∀ i p, ({ s with stop := pc, closing := closing } : CommsState τ ω μ ι).Draining i p ↔
      s.Draining i p)
    (hflow : FlowOk threads { s with stop := pc, closing := closing }) :
    CommsInv nonPaged threads { s with stop := pc, closing := closing } := by
  have hplaces : ∀ i p, ({ s with stop := pc, closing := closing } : CommsState τ ω μ ι).HasItem i p ↔
      s.HasItem i p := CommsState.hasItem_congr rfl (fun _ => rfl) rfl rfl hdrain
  exact ⟨h.items.congr hplaces, h.messages.congr rfl (fun _ => rfl) rfl
    (fun i phase => CommsState.atPhase_congr (hplaces i) phase) fun _ => rfl,
    ⟨h.pools.sender, h.pools.item, h.pools.free⟩, hflow⟩

omit [DecidableEq τ] [DecidableEq ω] in
theorem CommsInv.waitForRundown (h : CommsInv nonPaged threads s) (hstop : s.stop = .notCalled) :
    CommsInv nonPaged threads { s with closing := true, stop := .kphWaitForRundown } := by
  have habandoned := h.flow.abandoned
  rw [hstop] at habandoned
  refine h.stopAt true ?_ ?_
  · intro i p
    simp [CommsState.Draining, hstop]
  · exact { h.flow with
      closing := by simp [StopPc.stage]
      noHolders := by simp [StopPc.stage]
      abandoned := by simpa [StopPc.stage] using habandoned
      queueEmpty := by simp [StopPc.stage]
      terminated := by simp [StopPc.stage]
      waiting := by simp
      draining := by simp }

omit [DecidableEq τ] [DecidableEq ω] in
theorem CommsInv.rundownDone (h : CommsInv nonPaged threads s) (hstop : s.stop = .kphWaitForRundown)
    (hholders : s.holders = []) : CommsInv nonPaged threads { s with stop := .keRundownQueue } := by
  have habandoned := h.flow.abandoned
  have hclosing := h.flow.closing
  rw [hstop] at habandoned hclosing
  refine h.stopAt s.closing ?_ ?_
  · intro i p
    simp [CommsState.Draining, hstop]
  · exact { h.flow with
      closing := by simpa [StopPc.stage] using hclosing
      noHolders := fun _ => hholders
      abandoned := by simpa [StopPc.stage] using habandoned
      queueEmpty := by simp [StopPc.stage]
      terminated := by simp [StopPc.stage]
      waiting := by simp
      draining := by simp }

/-- What is left after `KeRundownQueue`. -/
def CommsState.rundown (s : CommsState τ ω μ ι) (threads : List ω) : CommsState τ ω μ ι :=
  { s with
    abandoned := true
    chain := s.queue
    queue := []
    stop := .keWaitForSingleObject s.queue.head? threads }

omit [DecidableEq τ] [DecidableEq ω] in
theorem CommsInv.rundownQueue (h : CommsInv nonPaged threads s) (hstop : s.stop = .keRundownQueue) :
    CommsInv nonPaged threads (s.rundown threads) := by
  have hclosing := h.flow.closing
  have hholders := h.flow.noHolders
  rw [hstop] at hclosing hholders
  have hnone : ∀ i p, ¬ s.Draining i p := by
    intro i p
    simp [CommsState.Draining, hstop]
  have hmoved : Placed (s.rundown threads).HasItem ∧
      ∀ i p, (s.rundown threads).AtPhase i p ↔ s.AtPhase i p :=
    CommsState.rundown_places h.items hnone rfl rfl rfl rfl fun _ _ => Iff.rfl
  obtain ⟨hplaced, hphase⟩ := hmoved
  refine ⟨hplaced, h.messages.congr rfl (fun _ => rfl) rfl hphase fun _ => rfl,
    ⟨h.pools.sender, h.pools.item, h.pools.free⟩, ?_⟩
  exact { h.flow with
    queueNodup := List.nodup_nil
    chainNodup := h.flow.queueNodup
    closing := by simpa [CommsState.rundown, StopPc.stage] using hclosing
    noHolders := fun _ => hholders (by simp [StopPc.stage])
    abandoned := by simp [CommsState.rundown, StopPc.stage]
    queueEmpty := fun _ => rfl
    terminated := by simp [CommsState.rundown, StopPc.stage]
    waiting := by
      intro entry rest heq
      cases heq
      exact ⟨rfl, h.flow.created⟩
    draining := by simp [CommsState.rundown] }

omit [DecidableEq τ] [DecidableEq ω] in
theorem CommsInv.stopOn (h : CommsInv nonPaged threads s) {pc : StopPc ω ι}
    (hstage : 3 ≤ s.stop.stage) (hpc : 3 ≤ pc.stage)
    (hdrain : ∀ i p, ({ s with stop := pc } : CommsState τ ω μ ι).Draining i p ↔ s.Draining i p)
    (hterminated : 4 ≤ pc.stage → ∀ w, s.worker w = .terminated)
    (hwaiting : ∀ entry rest, pc = .keWaitForSingleObject entry rest →
      entry = s.chain.head? ∧ ∀ w, w ∉ rest → s.worker w = .terminated)
    (hdraining : ∀ phase item entry first, pc = .drain phase item entry first →
      ∃ before rest, s.chain = before ++ item :: rest ∧ s.chain.head? = some first ∧
        entry = rest.head?.getD first) :
    CommsInv nonPaged threads { s with stop := pc } :=
  h.stopAt s.closing hdrain
    (h.flow.pastRundown hstage (fun _ he => he) rfl rfl rfl rfl rfl rfl rfl rfl hpc hterminated
      hwaiting hdraining)

omit [DecidableEq μ] [DecidableEq τ] [DecidableEq ω] in
theorem drainFrom_eq {before rest : List ι} {i first : ι} (hchain : s.chain = before ++ i :: rest)
    (hnodup : s.chain.Nodup) (hfirst : s.chain.head? = some first) :
    s.drainFrom i first =
      { s with stop := .drain .kphpCommsSendMessage i (rest.head?.getD first) first } := by
  rw [hchain] at hnodup hfirst
  rw [CommsState.drainFrom, hchain, CommsState.flink_eq hnodup hfirst]

omit [DecidableEq τ] [DecidableEq ω] in
theorem CommsInv.threadsDone (h : CommsInv nonPaged threads s) {entry : Option ι}
    (hstop : s.stop = .keWaitForSingleObject entry []) :
    (entry = none → CommsInv nonPaged threads { s with stop := .deleteLookasides }) ∧
      ∀ first, entry = some first → CommsInv nonPaged threads (s.drainFrom first first) := by
  obtain ⟨hentry, hdone⟩ := h.flow.waiting entry [] hstop
  have hterminated : ∀ w, s.worker w = .terminated := fun w => hdone w List.not_mem_nil
  have hstage : 3 ≤ s.stop.stage := by simp [hstop, StopPc.stage]
  constructor
  · rintro rfl
    have hempty : s.chain = [] := List.head?_eq_none_iff.mp hentry.symm
    refine h.stopOn hstage (by simp [StopPc.stage]) ?_ (fun _ => hterminated) (by simp) (by simp)
    intro i p
    simp [CommsState.Draining, hstop, hempty]
  · rintro first rfl
    obtain ⟨rest, hchain⟩ : ∃ rest, s.chain = [] ++ first :: rest :=
      List.head?_eq_some_iff.mp hentry.symm
    have hnodup := h.flow.chainNodup
    rw [drainFrom_eq hchain hnodup hentry.symm]
    refine h.stopOn hstage (by simp [StopPc.stage]) ?_ (fun _ => hterminated) (by simp) ?_
    · intro i p
      have hstop' : ({ s with
          stop := .drain .kphpCommsSendMessage first (rest.head?.getD first) first } :
          CommsState τ ω μ ι).stop = _ := rfl
      rw [CommsState.draining_iff _ hstop' hchain hnodup]
      simp only [CommsState.Draining, hstop, hchain, List.nil_append, List.mem_cons]
      tauto
    · rintro _ _ _ _ ⟨⟩
      exact ⟨[], rest, hchain, hentry.symm, rfl⟩

def CommsState.drained (s : CommsState τ ω μ ι) (phase : ItemPhase) (item entry first : ι)
    (content : QueueItem μ) : CommsState τ ω μ ι :=
  let s := s.itemStep item content phase
  match phase.next with
  | some next => { s with stop := .drain next item entry first }
  | none => if entry ≠ first then s.drainFrom entry first else { s with stop := .deleteLookasides }

/-- Where the drain loop is after a phase; `rest` is behind the item. -/
def StopPc.afterDrain (phase : ItemPhase) (item entry first : ι) (rest : List ι) : StopPc ω ι :=
  match phase.next with
  | some next => .drain next item entry first
  | none =>
      match rest with
      | [] => .deleteLookasides
      | r :: rest => .drain .kphpCommsSendMessage r (rest.head?.getD first) first

omit [DecidableEq μ] [DecidableEq τ] [DecidableEq ω] in
theorem drained_eq {phase : ItemPhase} {item entry first : ι} {content : QueueItem μ}
    {before rest : List ι} (hchain : s.chain = before ++ item :: rest) (hnodup : s.chain.Nodup)
    (hfirst : s.chain.head? = some first) (hentry : entry = rest.head?.getD first) :
    s.drained phase item entry first content =
      { s.itemStep item content phase with stop := .afterDrain phase item entry first rest } := by
  rw [CommsState.drained, StopPc.afterDrain.eq_def]
  cases hnext : phase.next with
  | some next => rfl
  | none =>
      dsimp only
      cases rest with
      | nil =>
          have hlast : entry = first := hentry
          rw [if_neg (not_not.mpr hlast)]
      | cons r rest =>
          have hr : entry = r := hentry
          have hchain' : s.chain = (before ++ [item]) ++ r :: rest := by simp [hchain]
          have hne : r ≠ first := by
            rintro rfl
            rw [hchain'] at hnodup hfirst
            have hmem : r ∈ before ++ [item] := by
              cases before with
              | nil =>
                  simp only [List.nil_append, List.cons_append, List.head?_cons,
                    Option.some.injEq] at hfirst
                  simp [hfirst]
              | cons b before =>
                  simp only [List.cons_append, List.head?_cons, Option.some.injEq] at hfirst
                  simp [hfirst]
            exact (List.nodup_append.mp hnodup).2.2 r hmem r List.mem_cons_self rfl
          obtain ⟨-, -, -, -, hsame, -⟩ := CommsState.itemStep_eq (s := s) item content phase
          rw [← hsame] at hchain' hnodup hfirst
          rw [hr, if_pos hne]
          exact drainFrom_eq hchain' hnodup hfirst

omit [DecidableEq μ] [DecidableEq τ] [DecidableEq ω] in
theorem afterDrain_draining (s : CommsState τ ω μ ι) (phase : ItemPhase) {item : ι}
    (entry first : ι) {before rest : List ι} (hchain : s.chain = before ++ item :: rest) (hnodup : s.chain.Nodup) (i : ι) (p : ItemPhase) :
    ({ s with stop := .afterDrain phase item entry first rest } : CommsState τ ω μ ι).Draining i p ↔
      (i = item ∧ phase.next = some p) ∨ (p = .kphpCommsSendMessage ∧ i ∈ rest) := by
  cases hnext : phase.next with
  | some next =>
      have hstop : ({ s with stop := .afterDrain phase item entry first rest } :
          CommsState τ ω μ ι).stop = .drain next item entry first := by
        simp only [StopPc.afterDrain, hnext]
      rw [CommsState.draining_iff _ hstop hchain hnodup]
      simp [eq_comm]
  | none =>
      cases rest with
      | nil => simp [CommsState.Draining, StopPc.afterDrain, hnext]
      | cons r rest =>
          have hchain' : s.chain = (before ++ [item]) ++ r :: rest := by simp [hchain]
          have hstop : ({ s with stop := .afterDrain phase item entry first (r :: rest) } :
              CommsState τ ω μ ι).stop =
                .drain .kphpCommsSendMessage r (rest.head?.getD first) first := by
            simp only [StopPc.afterDrain, hnext]
          rw [CommsState.draining_iff _ hstop hchain' hnodup]
          simp only [reduceCtorEq, and_false, false_or, List.mem_cons]
          tauto

omit [DecidableEq τ] [DecidableEq ω] in
theorem CommsInv.drain (h : CommsInv nonPaged threads s) {phase : ItemPhase}
    {item entry first : ι} {content : QueueItem μ} (hstop : s.stop = .drain phase item entry first)
    (hitem : s.item item = some content) :
    CommsInv nonPaged threads (s.drained phase item entry first content) := by
  obtain ⟨before, rest, hchain, hfirst, hentry⟩ := h.flow.draining _ _ _ _ hstop
  have hnodup := h.flow.chainNodup
  have hstage : 4 ≤ s.stop.stage := by simp [hstop, StopPc.stage]
  have hold := CommsState.draining_iff s hstop hchain hnodup
  obtain ⟨hsender, hworker, -, hqueue, hsame, hpassed, hclosing, hholders, habandoned⟩ :=
    CommsState.itemStep_eq (s := s) item content phase
  have hmem : item ∉ rest := by
    rw [hchain] at hnodup
    exact (List.nodup_cons.mp (List.nodup_append.mp hnodup).2.1).1
  have hrunning : s.stop ≠ .returned := by simp [hstop]
  rw [drained_eq hchain hnodup hfirst hentry]
  have hnew := afterDrain_draining (s.itemStep item content phase) phase entry first
    (hsame.trans hchain) (hsame.symm ▸ hnodup)
  have hmove : CommsState.ItemMove s { s.itemStep item content phase with
      stop := .afterDrain phase item entry first rest } item (ItemPlace.after .drain phase) :=
    CommsState.drain_itemMove h.items hitem hmem hold hnew hsender hworker hqueue rfl
  have hat : s.HasItem item (.drain phase) := (hold item phase).mpr (Or.inl ⟨rfl, rfl⟩)
  refine ⟨hmove.placed h.items, ?_, ?_, ?_⟩
  · exact h.messages.itemMove h.items (fun _ => rfl) hitem hat hmove hsender hpassed rfl rfl rfl
  · exact h.pools.itemStep hitem phase hsender rfl rfl rfl
  · refine h.flow.pastRundown (by omega) (fun e he => late_itemStep phase hrunning he) hsender
      hworker rfl hclosing hholders hqueue habandoned hsame ?_ ?_ ?_ ?_
    · rw [StopPc.afterDrain.eq_def]
      cases phase.next with
      | some next => simp [StopPc.stage]
      | none => cases rest <;> simp [StopPc.stage]
    · exact fun _ => h.flow.terminated hstage
    · intro entry' threads' heq
      rw [StopPc.afterDrain.eq_def] at heq
      cases hnext : phase.next with
      | some next => simp [hnext] at heq
      | none => cases rest <;> simp [hnext] at heq
    · intro phase' item' entry' first' heq
      rw [StopPc.afterDrain.eq_def] at heq
      cases hnext : phase.next with
      | some next =>
          simp only [hnext, StopPc.drain.injEq] at heq
          obtain ⟨-, rfl, rfl, rfl⟩ := heq
          exact ⟨before, rest, hchain, hfirst, hentry⟩
      | none =>
          cases rest with
          | nil => simp [hnext] at heq
          | cons r rest =>
              simp only [hnext, StopPc.drain.injEq] at heq
              obtain ⟨-, rfl, rfl, rfl⟩ := heq
              exact ⟨before ++ [item], rest, by simp [hchain], hfirst, rfl⟩

omit [DecidableEq τ] in
theorem CommsInv.stopStep (h : CommsInv nonPaged threads s)
    (hstep : s.stopStep threads = some s') : CommsInv nonPaged threads s' := by
  rw [CommsState.stopStep.eq_def] at hstep
  cases hstop : s.stop with
  | notCalled =>
      simp only [hstop, Option.some.injEq] at hstep
      exact hstep ▸ h.waitForRundown hstop
  | kphWaitForRundown =>
      simp only [hstop, Option.ite_none_right_eq_some, Option.some.injEq] at hstep
      obtain ⟨hholders, rfl⟩ := hstep
      exact h.rundownDone hstop hholders
  | keRundownQueue =>
      simp only [hstop, Option.some.injEq] at hstep
      exact hstep ▸ h.rundownQueue hstop
  | keWaitForSingleObject entry rest =>
      cases rest with
      | nil =>
          obtain ⟨hnone, hsome⟩ := h.threadsDone hstop
          cases entry with
          | none =>
              simp only [hstop, Option.some.injEq] at hstep
              exact hstep ▸ hnone rfl
          | some first =>
              simp only [hstop, Option.some.injEq] at hstep
              exact hstep ▸ hsome first rfl
      | cons w rest =>
          simp only [hstop, Option.ite_none_right_eq_some, Option.some.injEq] at hstep
          obtain ⟨hw, rfl⟩ := hstep
          obtain ⟨hentry, hdone⟩ := h.flow.waiting entry (w :: rest) hstop
          refine h.stopOn (by simp [hstop, StopPc.stage]) (by simp [StopPc.stage]) ?_
            (by simp [StopPc.stage]) ?_ (by simp)
          · intro i p
            simp [CommsState.Draining, hstop]
          · intro entry' rest' heq
            cases heq
            refine ⟨hentry, ?_⟩
            intro w' hw'
            by_cases hsame : w' = w
            · exact hsame ▸ hw
            · exact hdone w' (List.not_mem_cons_of_ne_of_not_mem hsame hw')
  | drain phase item entry first =>
      simp only [hstop, Option.map_eq_some_iff] at hstep
      obtain ⟨content, hitem, rfl⟩ := hstep
      exact h.drain hstop hitem
  | deleteLookasides =>
      simp only [hstop, Option.some.injEq] at hstep
      subst hstep
      have hstage : 4 ≤ s.stop.stage := by simp [hstop, StopPc.stage]
      refine h.stopOn (by omega) (by simp [StopPc.stage]) ?_
        (fun _ => h.flow.terminated hstage) (by simp) (by simp)
      intro i p
      simp [CommsState.Draining, hstop]
  | returned => simp [hstop] at hstep

theorem CommsInv.step (h : CommsInv nonPaged threads s) (hstep : CommsStep nonPaged threads s s') :
    CommsInv nonPaged threads s' := by
  cases hstep with
  | send t message target hidle hnew => exact h.send hidle hnew
  | sender t allocated hfree => exact h.senderStep t hfree
  | worker w hw => exact h.workerStep hw
  | stop hstop => exact h.stopStep hstop

omit [DecidableEq τ] in
theorem CommsInv.start :
    CommsInv nonPaged threads (CommsState.start threads : CommsState τ ω μ ι) := by
  have hitems : ∀ i q, (CommsState.start threads : CommsState τ ω μ ι).HasItem i q ↔ q = .free := by
    intro i q
    cases q with
    | worker w phase =>
        simp only [CommsState.HasItem, CommsState.start]
        split <;> simp
    | _ => simp [CommsState.HasItem, CommsState.start, SenderPc.entry, CommsState.Draining]
  have hmessages : ∀ m q, (CommsState.start threads : CommsState τ ω μ ι).HasMessage m q ↔
      q = .outside := by
    intro m q
    cases q <;> simp [CommsState.HasMessage, CommsState.start, SenderPc.carried, CommsState.frees,
      CommsState.count]
  exact {
    items := fun i => ⟨.free, hitems i⟩
    messages := {
      placed := fun m => ⟨.outside, hmessages m⟩
      sentOnce := by simp [CommsState.sends, CommsState.count, CommsState.start]
      unsent := by simp [CommsState.sends, CommsState.count, CommsState.start]
      freedOnce := by simp [CommsState.frees, CommsState.count, CommsState.start] }
    pools := {
      sender := by simp [CommsState.start, SenderPc.carried]
      item := by simp [CommsState.start]
      free := by simp [CommsState.start] }
    flow := {
      late := by simp [CommsState.start]
      created := by
        intro w hw
        simp [CommsState.start, hw]
      holders := by simp [CommsState.start, SenderPc.holdsRundown]
      queueNodup := List.nodup_nil
      chainNodup := List.nodup_nil
      closing := by simp [CommsState.start, StopPc.stage]
      noHolders := fun _ => rfl
      abandoned := by simp [CommsState.start, StopPc.stage]
      queueEmpty := fun _ => rfl
      terminated := by simp [CommsState.start, StopPc.stage]
      waiting := by simp [CommsState.start]
      draining := by simp [CommsState.start] } }

/-! ## Messages are disposed of exactly once -/

/-- Every item and every message is at one place; a message is sent and freed at most once,
and freed to its own pool. When `KphCommsStop` has returned no item is left, and a message
that is not freed is with a sender that cannot acquire the rundown: that one alone frees
anything from then on, and nothing is sent. -/
structure Disposed (nonPaged : μ → Bool) (s : CommsState τ ω μ ι) : Prop where
  items : Placed s.HasItem
  messages : Placed s.HasMessage
  sentOnce : ∀ m, s.sends m ≤ 1
  freedOnce : ∀ m, s.frees m ≤ 1
  matching : ∀ m n reason, .free m n reason ∈ s.events ∨ .free m n reason ∈ s.lateEvents →
    n = nonPaged m
  late : ∀ e ∈ s.lateEvents, ∃ m n, e = .free m n .noRundown
  returned : s.stop = .returned → (∀ i, s.item i = none) ∧ (∀ w, s.worker w = .terminated) ∧
    ∀ m ∈ s.passed, s.frees m = 1 ∨ ∃ t c, (s.sender t = .kphAcquireRundown c ∨
      s.sender t = .dropNoRundown c) ∧ c.message = m

omit [DecidableEq τ] [DecidableEq ω] in
theorem CommsInv.disposed (h : CommsInv nonPaged threads s) : Disposed nonPaged s where
  items := h.items
  messages := h.messages.placed
  sentOnce := h.messages.sentOnce
  freedOnce := h.messages.freedOnce
  matching := h.pools.free
  late := h.flow.late
  returned := by
    intro hstop
    have hstage : s.stop.stage = 6 := by simp [hstop, StopPc.stage]
    have hterminated := h.flow.terminated (by omega)
    have hnohold : ∀ t, (s.sender t).holdsRundown ≠ true := by
      intro t ht
      have := h.flow.stage_lt ht
      omega
    have hitem : ∀ i, s.item i = none := by
      intro i
      obtain ⟨p, hp⟩ := h.items i
      have hat := (hp p).mpr rfl
      cases p with
      | free => exact hat
      | sender t =>
          cases hpc : s.sender t with
          | keInsertQueue e => exact absurd (by rw [hpc]; rfl) (hnohold t)
          | _ => simp [CommsState.HasItem, hpc, SenderPc.entry] at hat
      | queue => simp [CommsState.HasItem, h.flow.queueEmpty (by omega)] at hat
      | worker w phase => simp [CommsState.HasItem, hterminated w] at hat
      | drain phase => simp [CommsState.HasItem, CommsState.Draining, hstop] at hat
    refine ⟨hitem, hterminated, ?_⟩
    intro m hm
    obtain ⟨p, hp⟩ := h.messages.placed m
    have hat := (hp p).mpr rfl
    cases p with
    | outside => exact absurd hm hat
    | sender t =>
        obtain ⟨c, hc, hmessage⟩ := hat
        refine Or.inr ⟨t, c, ?_, hmessage⟩
        cases hpc : s.sender t with
        | kphAcquireRundown c' =>
            rw [hpc] at hc
            exact Or.inl (congrArg _ (Option.some.inj hc))
        | dropNoRundown c' =>
            rw [hpc] at hc
            exact Or.inr (congrArg _ (Option.some.inj hc))
        | kphpAllocateMessageQueueItem c' => exact absurd (by rw [hpc]; rfl) (hnohold t)
        | dropNoItem c' => exact absurd (by rw [hpc]; rfl) (hnohold t)
        | _ => simp [hpc, SenderPc.carried] at hc
    | item i sent =>
        obtain ⟨c, hc, -⟩ := hat
        simp [hitem i] at hc
    | freed =>
        have hfreed : 0 < s.frees m := hat
        have := h.messages.freedOnce m
        exact Or.inl (by omega)

/-- A turn of a system with two senders, two queue threads and items at numbers. -/
inductive CommsTurn where
  | send (t : Bool) (message : Nat)
  | sender (t : Bool) (allocated : Option Nat)
  | worker (w : Bool)
  | stop

abbrev SmallComms := CommsState Bool Bool Nat Nat

def CommsTurn.take (s : SmallComms) : CommsTurn → SmallComms
  | .send t message =>
      match s.sender t with
      | .idle =>
          if message ∈ s.passed then s
          else { s with passed := message :: s.passed }.setSender t
            (.kphAcquireRundown ⟨message, true, none⟩)
      | _ => s
  | .sender t allocated =>
      if ∀ entry ∈ allocated, s.item entry = none then s.senderStep t allocated else s
  | .worker w => (s.workerStep w).getD s
  | .stop => (s.stopStep [false, true]).getD s

theorem CommsTurn.take_run (s : SmallComms) (turn : CommsTurn) :
    Relation.ReflTransGen (CommsStep (fun _ => true) [false, true]) s (turn.take s) := by
  cases turn with
  | send t message =>
      rw [CommsTurn.take]
      split
      · next hidle =>
          split
          · exact .refl
          · next hnew => exact .single (.send t message none hidle hnew)
      · exact .refl
  | sender t allocated =>
      rw [CommsTurn.take]
      split
      · next hfree => exact .single (.sender t allocated hfree)
      · exact .refl
  | worker w =>
      rw [CommsTurn.take]
      cases h : s.workerStep w with
      | none => exact .refl
      | some s' => exact .single (.worker w h)
  | stop =>
      rw [CommsTurn.take]
      cases h : s.stopStep [false, true] with
      | none => exact .refl
      | some s' => exact .single (.stop h)

theorem CommsTurn.takes_run (s : SmallComms) (turns : List CommsTurn) :
    Relation.ReflTransGen (CommsStep (fun _ => true) [false, true]) s
      (turns.foldl CommsTurn.take s) := by
  induction turns generalizing s with
  | nil => exact .refl
  | cons turn turns ih => exact (CommsTurn.take_run s turn).trans (ih _)

end

end SystemInformer.Driver
