import OpenKernel.Kernel.Instances
import OpenKernel.Kernel.Registrations

/-!
# Futex wake-ups

What one `futex_wake` does to the threads and to the table, and when these are
the waiters of the caller's own process.

An entry does not tell who has registered it, and the thread that it names may
be gone.  `Attributed` carries the process instance that registered each
entry along with the kernel.
-/

namespace OpenKernel

open Lib

namespace Kernel

/-- The kernel, and for each entry of its futex table the process instance
that has registered it. -/
structure Attributed where
  kernel : Kernel
  registrar : Nat → Option ProcessInstance

/-- What stands in the table after a step and did not before was registered by
the current thread. -/
def Attributed.step (s : Attributed) (a : Action) : Option Attributed :=
  (s.kernel.step a).map fun k =>
    { kernel := k
      registrar := fun i =>
        if k.futexWaiters i = s.kernel.futexWaiters i then s.registrar i
        else s.kernel.instanceOf s.kernel.currentThread }

/-- The states that the kernel reaches, with the registrars of their entries. -/
def Attributed.Reached (memory : Memory) (s : Attributed) : Prop :=
  ∃ image k₀, boot memory image = some k₀ ∧
    Run Attributed.step Always ⟨k₀, fun _ => none⟩ s

/-- Whether `t` is blocked in `futex_wait` on `address`, in the process of
the current thread. -/
def waitsOn (k : Kernel) (address : Nat) (t : ThreadId) : Bool :=
  (k.threads t).state == .blocked && k.instanceOf t == k.instanceOf k.currentThread &&
    match k.contextOf t with
    | some (.futexWaiting a _) => a == address
    | _ => false

/-- The waiters of the caller's process. -/
def waiters (k : Kernel) (address : Nat) : Finset ThreadId :=
  (Finset.range maxThreads).filter fun t => k.waitsOn address t

/-- The threads that have gone from blocked to ready. -/
def moved (k k' : Kernel) : Finset ThreadId :=
  (Finset.range maxThreads).filter fun t =>
    (k.threads t).state = .blocked ∧ (k'.threads t).state = .ready

/-- Whether the entry at `index` is for `address` and names the blocked
thread `t`. -/
def offers (k : Kernel) (address index : Nat) (t : ThreadId) : Bool :=
  (k.threads t).state == .blocked &&
    (k.futexWaiters index).any fun e => e.address == address && e.thread == t

/-- The blocked threads that the entries before `index` offer for
`address`. -/
def offeredBefore (k : Kernel) (address index : Nat) : Finset ThreadId :=
  (Finset.range maxThreads).filter fun t =>
    ∃ i ∈ List.range index, k.offers address i t

/-- Those of them that are among the first `count`. -/
def chosenBefore (k : Kernel) (address count index : Nat) : Finset ThreadId :=
  (Finset.range maxThreads).filter fun t =>
    ∃ i ∈ List.range index, k.offers address i t ∧
      (k.offeredBefore address i).card < count

/-- A `futex_wake` is exact: it wakes waiters of the caller's process on the
address, as many as asked for, and tells their number.  Each entry that it
takes out is for the address and was registered by that process, and a thread
that the entry names and that is blocked is one of the waiters. -/
structure Attributed.WakesExactly (s : Attributed) (address count : Nat) (k' : Kernel) : Prop where
  woken : s.kernel.moved k' ⊆ s.kernel.waiters address
  card : (s.kernel.moved k').card = min count (s.kernel.waiters address).card
  value : k'.log.head? =
    some (.returned s.kernel.currentThread (s.kernel.moved k').card)
  removed : ∀ i e, s.kernel.futexWaiters i = some e → k'.futexWaiters i ≠ some e →
    e.address = address ∧
      s.registrar i = s.kernel.instanceOf s.kernel.currentThread ∧
      ((s.kernel.threads e.thread).state = .blocked →
        e.thread ∈ s.kernel.waiters address)

section Loop

variable {k k' : Kernel} {address count index : Nat} {t : ThreadId}

theorem offers_iff : k.offers address index t ↔
    (k.threads t).state = .blocked ∧
      ∃ e, k.futexWaiters index = some e ∧ e.address = address ∧ e.thread = t := by
  simp only [offers, Bool.and_eq_true, beq_iff_eq, Option.any_eq_true]

theorem mem_offeredBefore : t ∈ k.offeredBefore address index ↔
    t < maxThreads ∧ ∃ i < index, k.offers address i t := by
  simp only [offeredBefore, Finset.mem_filter, Finset.mem_range, List.mem_range]

theorem mem_chosenBefore : t ∈ k.chosenBefore address count index ↔
    t < maxThreads ∧ ∃ i < index, k.offers address i t ∧
      (k.offeredBefore address i).card < count := by
  simp only [chosenBefore, Finset.mem_filter, Finset.mem_range, List.mem_range]

/-- The state of the loop before the turn of `index`. -/
structure Turn (k₀ : Kernel) (address count index woken : Nat) (k : Kernel) :
    Prop where
  count_eq : woken = min count (k₀.offeredBefore address index).card
  all : (k₀.offeredBefore address index).card ≤ count →
    k₀.chosenBefore address count index = k₀.offeredBefore address index
  card_eq : (k₀.chosenBefore address count index).card = woken
  state : ∀ t, (k.threads t).state =
    if t ∈ k₀.chosenBefore address count index then .ready
    else (k₀.threads t).state
  later : ∀ i, index ≤ i → k.futexWaiters i = k₀.futexWaiters i
  removed : ∀ i e, k₀.futexWaiters i = some e →
    (k.futexWaiters i ≠ some e ↔
      i < index ∧ e.address = address ∧ (k₀.offeredBefore address i).card < count)
  current : k.currentThread = k₀.currentThread

theorem mem_offeredBefore_succ : t ∈ k.offeredBefore address (index + 1) ↔
    t ∈ k.offeredBefore address index ∨
      t < maxThreads ∧ k.offers address index t := by
  simp only [mem_offeredBefore, Nat.lt_succ_iff_lt_or_eq, or_and_right, exists_or,
    exists_eq_left, and_or_left]

theorem mem_chosenBefore_succ : t ∈ k.chosenBefore address count (index + 1) ↔
    t ∈ k.chosenBefore address count index ∨
      t < maxThreads ∧ k.offers address index t ∧
        (k.offeredBefore address index).card < count := by
  simp only [mem_chosenBefore, Nat.lt_succ_iff_lt_or_eq, or_and_right, exists_or,
    exists_eq_left, and_or_left]

/-- An entry that offers nothing new: it is absent, for another address, or
its thread was not blocked or has been offered before. -/
theorem offeredBefore_succ (address : Nat)
    (hold : ∀ t < maxThreads, k.offers address index t →
      t ∈ k.offeredBefore address index) :
    k.offeredBefore address (index + 1) = k.offeredBefore address index := by
  ext t
  rw [mem_offeredBefore_succ]
  exact or_iff_left_of_imp fun ht => hold t ht.1 ht.2

theorem offeredBefore_mono (k : Kernel) (address index : Nat) :
    k.offeredBefore address index ⊆ k.offeredBefore address (index + 1) :=
  fun _ ht => mem_offeredBefore_succ.mpr (.inl ht)

/-- The turn does nothing once enough threads have been woken. -/
theorem Turn.enough {k₀ : Kernel} {woken : Nat}
    (h : Turn k₀ address count index woken k)
    (henough : count ≤ (k₀.offeredBefore address index).card) :
    Turn k₀ address count (index + 1) woken k := by
  have hsub := k₀.offeredBefore_mono address index
  have hcard := Finset.card_le_card hsub
  have hchosen : k₀.chosenBefore address count (index + 1) =
      k₀.chosenBefore address count index := by
    ext t
    rw [mem_chosenBefore_succ]
    exact or_iff_left fun hx => Nat.not_le_of_lt hx.2.2 henough
  refine { h with
    count_eq := ?_, all := fun hle => ?_, card_eq := ?_, state := ?_
    later := fun i hi => h.later i (Nat.le_of_succ_le hi)
    removed := ?_ }
  · rw [h.count_eq, Nat.min_eq_left henough,
      Nat.min_eq_left (Nat.le_trans henough hcard)]
  · have hsame := Finset.eq_of_subset_of_card_le hsub (Nat.le_trans hle henough)
    rw [hchosen, ← hsame]
    exact h.all (hsame ▸ hle)
  · rw [hchosen, h.card_eq]
  · rw [hchosen]
    exact h.state
  · intro i e he
    rw [h.removed i e he, Nat.lt_succ_iff_lt_or_eq, or_and_right]
    refine (or_iff_left fun hx => ?_).symm
    rw [hx.1] at hx
    exact Nat.not_le_of_lt hx.2.2 henough

/-- Before enough threads have been woken, all that were offered have been
woken. -/
theorem Turn.short {k₀ : Kernel} {woken : Nat}
    (h : Turn k₀ address count index woken k)
    (hshort : (k₀.offeredBefore address index).card < count) :
    woken = (k₀.offeredBefore address index).card ∧
      k₀.chosenBefore address count index = k₀.offeredBefore address index ∧
      k₀.chosenBefore address count (index + 1) =
        k₀.offeredBefore address (index + 1) := by
  have hall := h.all (Nat.le_of_lt hshort)
  refine ⟨?_, hall, ?_⟩
  · rw [h.count_eq, Nat.min_eq_right (Nat.le_of_lt hshort)]
  · ext t
    rw [mem_chosenBefore_succ, mem_offeredBefore_succ, hall]
    simp only [hshort, and_true]

/-- A turn that wakes what its entry offers. -/
theorem Turn.next {k₀ : Kernel} {woken woken' : Nat}
    (h : Turn k₀ address count index woken k)
    (hshort : (k₀.offeredBefore address index).card < count)
    (hwoken : woken' = (k₀.offeredBefore address (index + 1)).card)
    (hle : (k₀.offeredBefore address (index + 1)).card ≤ count)
    (hstate : ∀ t, (k'.threads t).state =
      if t ∈ k₀.offeredBefore address (index + 1) then .ready
      else (k₀.threads t).state)
    (hlater : ∀ i, i ≠ index → k'.futexWaiters i = k.futexWaiters i)
    (hentry : ∀ e, k₀.futexWaiters index = some e →
      (k'.futexWaiters index ≠ some e ↔ e.address = address))
    (hcurrent : k'.currentThread = k.currentThread) :
    Turn k₀ address count (index + 1) woken' k' := by
  obtain ⟨-, hchosen, hchosen'⟩ := h.short hshort
  refine
    { count_eq := ?_
      all := fun _ => hchosen'
      card_eq := ?_
      state := ?_
      later := fun i hi => ?_
      removed := fun i e he => ?_
      current := hcurrent.trans h.current }
  · rw [hwoken, Nat.min_eq_right hle]
  · rw [hchosen', hwoken]
  · rw [hchosen']
    exact hstate
  · rw [hlater i (Nat.ne_of_gt hi), h.later i (Nat.le_of_succ_le hi)]
  · by_cases heq : i = index
    · rw [heq] at he ⊢
      rw [hentry e he]
      exact ⟨fun ha => ⟨Nat.lt_succ_self _, ha, hshort⟩, fun hx => hx.2.1⟩
    · rw [hlater i heq, h.removed i e he]
      refine and_congr_left fun _ => ?_
      omega

/-- The turn of an entry for the address, while more threads are wanted. -/
theorem Turn.fire {k₀ : Kernel} {woken : Nat} {e : FutexWaiter}
    (h : Turn k₀ address count index woken k)
    (hlt : ∀ t, (k₀.threads t).state = .blocked → t < maxThreads)
    (hshort : (k₀.offeredBefore address index).card < count)
    (hk : k.futexWaiters index = some e) (haddress : e.address = address) :
    Turn k₀ address count (index + 1)
      (futexWakeOne address count (woken, k) index).1
      (futexWakeOne address count (woken, k) index).2 := by
  obtain ⟨hwoken, hchosen, -⟩ := h.short hshort
  have hentry := h.later index (Nat.le_refl _)
  have hk₀ : k₀.futexWaiters index = some e := by rw [← hentry, hk]
  have hturn : futexWakeOne address count (woken, k) index =
      (if (k.fireFutex index e).1 then woken + 1 else woken,
        (k.fireFutex index e).2) := by
    unfold futexWakeOne
    simp only [hk]
    rw [if_pos ⟨haddress, by omega⟩]
  have hstate := h.state e.thread
  rw [hchosen] at hstate
  by_cases hblocked : (k.threads e.thread).state = .blocked
  · have hout : e.thread ∉ k₀.offeredBefore address index := by
      intro hin
      rw [if_pos hin, hblocked] at hstate
      cases hstate
    have hb₀ : (k₀.threads e.thread).state = .blocked := by
      rw [if_neg hout] at hstate
      rw [← hstate, hblocked]
    have hmax := hlt _ hb₀
    have hsucc : k₀.offeredBefore address (index + 1) =
        insert e.thread (k₀.offeredBefore address index) := by
      ext t
      rw [mem_offeredBefore_succ, Finset.mem_insert, or_comm]
      refine or_congr_left ⟨fun ht => ?_, fun ht => ?_⟩
      · obtain ⟨-, e', he', -, ht'⟩ := offers_iff.mp ht.2
        rw [hk₀] at he'
        rw [Option.some.inj he', ht']
      · rw [ht]
        exact ⟨hmax, offers_iff.mpr ⟨hb₀, e, hk₀, haddress, rfl⟩⟩
    have hfire : k.fireFutex index e = (true,
        { k with futexWaiters := put k.futexWaiters index none }.makeReady
          e.thread) := by
      unfold fireFutex wake
      exact if_neg (not_or.mpr ⟨Nat.not_le_of_lt hmax, not_not.mpr hblocked⟩)
    rw [hturn, hfire]
    have htables := makeReady_tables
      { k with futexWaiters := put k.futexWaiters index none } e.thread
    refine h.next hshort ?_ ?_ (fun t => ?_) (fun i hi => ?_)
      (fun e' he' => ?_) ?_
    · rw [hsucc, Finset.card_insert_of_notMem hout, hwoken]
      rfl
    · rw [hsucc, Finset.card_insert_of_notMem hout]
      exact hshort
    · rw [makeReady_state, hsucc]
      have ht := h.state t
      rw [hchosen] at ht
      show (if t = e.thread ∧ (k.threads t).state = .blocked then
        ThreadState.ready else (k.threads t).state) = _
      by_cases hte : t = e.thread
      · rw [hte, if_pos ⟨rfl, hblocked⟩, if_pos (Finset.mem_insert_self _ _)]
      · rw [if_neg fun hx => hte hx.1, ht]
        simp only [Finset.mem_insert, hte, false_or]
    · rw [htables.2.1]
      exact put_other hi
    · rw [hk₀] at he'
      rw [htables.2.1, ← Option.some.inj he']
      show put k.futexWaiters index none index ≠ some e ↔ _
      rw [put_same]
      exact ⟨fun _ => haddress, fun _ hx => nomatch hx⟩
    · exact (woken_makeReady _ e.thread).currentThread
  · have hsucc := offeredBefore_succ address fun t hmax ho => by
      obtain ⟨hb, e', he', -, rfl⟩ := offers_iff.mp ho
      rw [hk₀] at he'
      obtain rfl := Option.some.inj he'
      by_contra hout
      rw [if_neg hout, hb] at hstate
      exact hblocked hstate
    have hfire : k.fireFutex index e = (false,
        { k with futexWaiters := put k.futexWaiters index none }) := by
      unfold fireFutex wake
      exact if_pos (.inr hblocked)
    rw [hturn, hfire]
    refine h.next hshort (by rw [hsucc]; exact hwoken)
      (by rw [hsucc]; omega) ?_ (fun i hi => put_other hi)
      (fun e' he' => ?_) rfl
    · rw [hsucc, ← hchosen]
      exact h.state
    · rw [hk₀] at he'
      rw [← Option.some.inj he']
      show put k.futexWaiters index none index ≠ some e ↔ _
      rw [put_same]
      exact ⟨fun _ => haddress, fun _ hx => nomatch hx⟩

/-- One turn of the loop. -/
theorem Turn.step {k₀ : Kernel} {woken : Nat}
    (h : Turn k₀ address count index woken k)
    (hlt : ∀ t, (k₀.threads t).state = .blocked → t < maxThreads) :
    Turn k₀ address count (index + 1)
      (futexWakeOne address count (woken, k) index).1
      (futexWakeOne address count (woken, k) index).2 := by
  by_cases hshort : (k₀.offeredBefore address index).card < count
  · obtain ⟨hwoken, hchosen, -⟩ := h.short hshort
    have hentry := h.later index (Nat.le_refl _)
    cases hk : k.futexWaiters index with
    | none =>
      have hnone : futexWakeOne address count (woken, k) index = (woken, k) := by
        unfold futexWakeOne
        simp only [hk]
      have hsucc := offeredBefore_succ address fun t _ ho => by
        obtain ⟨-, e, he, -⟩ := offers_iff.mp ho
        rw [← hentry, hk] at he
        cases he
      rw [hnone]
      refine h.next hshort (by rw [hsucc, hwoken]) (by rw [hsucc]; omega) ?_
        (fun _ _ => rfl) (fun e he => ?_) rfl
      · rw [hsucc, ← hchosen]
        exact h.state
      · rw [← hentry, hk] at he
        cases he
    | some e =>
      by_cases haddress : e.address = address
      · exact h.fire hlt hshort hk haddress
      · have hskip : futexWakeOne address count (woken, k) index = (woken, k) := by
          unfold futexWakeOne
          simp only [hk, haddress, false_and, if_false]
        have hsucc := offeredBefore_succ address fun t _ ho => by
          obtain ⟨-, e', he', ha, -⟩ := offers_iff.mp ho
          rw [← hentry, hk] at he'
          obtain rfl := Option.some.inj he'
          exact absurd ha haddress
        rw [hskip]
        refine h.next hshort (by rw [hsucc, hwoken]) (by rw [hsucc]; omega) ?_
          (fun _ _ => rfl) (fun e' he' => ?_) rfl
        · rw [hsucc, ← hchosen]
          exact h.state
        · rw [← hentry, hk] at he'
          rw [hk, ← Option.some.inj he']
          exact ⟨fun hne => absurd rfl hne, fun ha => absurd ha haddress⟩
  · have henough := Nat.le_of_not_lt hshort
    have hwoken : ¬ woken < count := by
      rw [h.count_eq, Nat.min_eq_left henough]
      exact Nat.lt_irrefl _
    have hskip : futexWakeOne address count (woken, k) index = (woken, k) := by
      unfold futexWakeOne
      simp only [hwoken, and_false, if_false]
      split <;> rfl
    rw [hskip]
    exact h.enough henough

theorem Turn.start (k : Kernel) (address count : Nat) :
    Turn k address count 0 0 k := by
  have hoffered : k.offeredBefore address 0 = ∅ := by
    ext t
    simp [mem_offeredBefore]
  have hchosen : k.chosenBefore address count 0 = ∅ := by
    ext t
    simp [mem_chosenBefore]
  refine ⟨?_, fun _ => ?_, ?_, fun t => ?_, fun _ _ => rfl, fun i e he => ?_, rfl⟩
  · rw [hoffered, Finset.card_empty, Nat.min_zero]
  · rw [hchosen, hoffered]
  · rw [hchosen, Finset.card_empty]
  · rw [hchosen, if_neg (Finset.notMem_empty t)]
  · exact ⟨fun hne => absurd he hne, fun hx => absurd hx.1 (Nat.not_lt_zero i)⟩

/-- What the loop of `syscall_futex_wake` does. -/
theorem futexWake_turn (k : Kernel) (address count : Nat)
    (hlt : ∀ t, (k.threads t).state = .blocked → t < maxThreads) :
    Turn k address count maxFutexWaiters
      ((List.range maxFutexWaiters).foldl (futexWakeOne address count) (0, k)).1
      ((List.range maxFutexWaiters).foldl (futexWakeOne address count)
        (0, k)).2 := by
  induction maxFutexWaiters with
  | zero => exact Turn.start k address count
  | succ n ih =>
    rw [List.range_succ, List.foldl_append, List.foldl_cons, List.foldl_nil]
    exact ih.step hlt

end Loop

/-! ## The entries of waiting threads -/

/-- A thread that is blocked in `futex_wait` has an entry for its address. -/
def FutexNamed (k : Kernel) (context : ThreadId → Option Context) : Prop :=
  ∀ t address due, (k.threads t).state = .blocked →
    context t = some (.futexWaiting address due) →
      ∃ i < maxFutexWaiters, ∃ e, k.futexWaiters i = some e ∧ e.thread = t ∧
        e.address = address

section Step

variable {k k' : Kernel} {context context' : ThreadId → Option Context}

theorem FutexNamed.congr (h : k.FutexNamed context)
    (hfutexes : k'.futexWaiters = k.futexWaiters)
    (hblocked : ∀ t, (k'.threads t).state = .blocked →
      (k.threads t).state = .blocked)
    (hcontext : ∀ t address due, (k'.threads t).state = .blocked →
      context' t = some (.futexWaiting address due) →
        context t = some (.futexWaiting address due)) :
    k'.FutexNamed context' := by
  intro t address due hb hc
  rw [hfutexes]
  exact h t address due (hblocked t hb) (hcontext t address due hb hc)

theorem FutexNamed.quiet (h : k.FutexNamed k.contextOf) (hq : Quiet k k') :
    k'.FutexNamed k'.contextOf :=
  h.congr hq.futexWaiters (fun t ht => by rwa [hq.state] at ht)
    fun t _ _ _ hc => by rwa [hq.contextOf] at hc

theorem FutexNamed.dispatch {saved : Context}
    (h : k.FutexNamed (k.contextAt saved)) (hd : Dispatched k saved k') :
    k'.FutexNamed k'.contextOf := by
  refine h.congr hd.futexWaiters (fun t ht => ?_) fun t address due _ hc => ?_
  · rw [hd.state] at ht
    split at ht
    · cases ht
    · exact ht
  · rw [hd.contextOf] at hc
    exact hc

/-- A thread that leaves the processor without waiting. -/
theorem FutexNamed.leave (h : k.FutexNamed k.contextOf) (saved : Context)
    (hsaved : ∀ address due, saved ≠ .futexWaiting address due) :
    k.FutexNamed (k.contextAt saved) := by
  refine h.congr rfl (fun _ ht => ht) fun t address due _ hc => ?_
  unfold contextAt at hc
  split at hc
  · exact absurd (Option.some.inj hc) (hsaved address due)
  · exact hc

/-- One thread changes and does not become blocked. -/
theorem FutexNamed.updateThread (h : k.FutexNamed context) (u : ThreadId)
    {f : Thread → Thread}
    (hf : (f (k.threads u)).state = .blocked → (k.threads u).state = .blocked) :
    (k.updateThread u f).FutexNamed context := by
  refine h.congr rfl (fun t ht => ?_) fun _ _ _ _ hc => hc
  have ht' : (put k.threads u (f (k.threads u)) t).state = .blocked := ht
  by_cases htu : t = u
  · rw [htu, put_same] at ht'
    rw [htu]
    exact hf ht'
  · rwa [put_other htu] at ht'

theorem FutexNamed.enqueue (h : k.FutexNamed context) (t : ThreadId) :
    (k.enqueue t).FutexNamed context := by
  have hthreads := (k.enqueue_fields t).1
  refine h.congr ?_ (fun u hu => by rwa [hthreads] at hu) fun _ _ _ _ hc => hc
  unfold Kernel.enqueue
  split <;> rfl

theorem FutexNamed.makeReady (h : k.FutexNamed context) (t : ThreadId) :
    (k.makeReady t).FutexNamed context := by
  refine h.congr (k.makeReady_tables t).2.1 (fun u hu => ?_) fun _ _ _ _ hc => hc
  rw [makeReady_state] at hu
  split at hu
  · cases hu
  · exact hu

/-- An entry goes, and its thread wakes up. -/
theorem FutexNamed.fireFutex (h : k.FutexNamed context)
    (hlt : ∀ t, (k.threads t).state = .blocked → t < maxThreads) {index : Nat}
    {entry : FutexWaiter} (hentry : k.futexWaiters index = some entry) :
    (k.fireFutex index entry).2.FutexNamed context := by
  have hwoken := k.woken_fireFutex index entry
  obtain ⟨-, htable, -⟩ := wake_tables
    { k with futexWaiters := put k.futexWaiters index none } entry.thread
  intro t address due hb hc
  have hb₀ : (k.threads t).state = .blocked := by
    rcases hwoken.state t with heq | ⟨hb', -⟩
    · rwa [heq] at hb
    · exact hb'
  have hne : t ≠ entry.thread := by
    rintro rfl
    unfold Kernel.fireFutex wake at hb
    rw [if_neg (not_or.mpr ⟨Nat.not_le_of_lt (hlt _ hb₀), not_not.mpr hb₀⟩)] at hb
    rw [makeReady_state, if_pos ⟨rfl, hb₀⟩] at hb
    cases hb
  obtain ⟨i, hi, e, he, hthread, haddress⟩ := h t address due hb₀ hc
  refine ⟨i, hi, e, ?_, hthread, haddress⟩
  unfold Kernel.fireFutex
  rw [htable]
  refine (put_other ?_).trans he
  rintro rfl
  rw [hentry] at he
  rw [← hthread, ← Option.some.inj he] at hne
  exact hne rfl

/-- Blocked threads are in the table. -/
def BlockedInTable (k : Kernel) : Prop :=
  ∀ t, (k.threads t).state = .blocked → t < maxThreads

theorem Slots.blockedInTable (h : k.Slots) : k.BlockedInTable := by
  intro t ht
  by_contra hge
  rw [(h.beyond t (Nat.le_of_not_lt hge)).1] at ht
  cases ht

theorem BlockedInTable.woken (h : k.BlockedInTable) (hw : Woken k k') :
    k'.BlockedInTable := by
  intro t ht
  rcases hw.state t with heq | ⟨hb, -⟩
  · rw [heq] at ht
    exact h t ht
  · exact h t hb

theorem FutexNamed.expireSleeper (h : k.FutexNamed context) (index : Nat) :
    (k.expireSleeper index).FutexNamed context := by
  unfold Kernel.expireSleeper
  split
  · exact h
  · split
    · rename_i entry _ _
      have hput : { k with sleepers := put k.sleepers index none }.FutexNamed
          context := h.congr rfl (fun _ ht => ht) fun _ _ _ _ hc => hc
      unfold wake
      split
      · exact hput
      · exact hput.makeReady entry.thread
    · exact h

theorem FutexNamed.wakes (h : k.FutexNamed context) (hlt : k.BlockedInTable)
    {a : Action} (hwakes : k.Wakes a k') : k'.FutexNamed context := by
  have hfold : ∀ {α : Type} (f : α → Nat → α) (g : α → Kernel),
      (∀ a n, Woken (g a) (g (f a n))) →
      (∀ a n, (g a).BlockedInTable → (g a).FutexNamed context →
        (g (f a n)).FutexNamed context) → ∀ (ns : List Nat) (a : α),
      (g a).BlockedInTable → (g a).FutexNamed context →
        (g (ns.foldl f a)).FutexNamed context := by
    intro α f g hwoken hf ns
    induction ns with
    | nil => exact fun a _ ha => ha
    | cons n ns ih => exact fun a hb ha => ih _ (hb.woken (hwoken a n)) (hf a n hb ha)
  cases hwakes with
  | tick =>
    have hclock : { k with timerTicks := k.timerTicks + 1 }.FutexNamed context :=
      h.congr rfl (fun _ ht => ht) fun _ _ _ _ hc => hc
    have hsleepers := hfold Kernel.expireSleeper id
      (fun k n => k.woken_expireSleeper n) (fun k n _ hk => hk.expireSleeper n)
      (List.range maxSleepers) { k with timerTicks := k.timerTicks + 1 } hlt hclock
    refine hfold Kernel.expireFutex id (fun k n => k.woken_expireFutex n)
      (fun k n hb hk => ?_) (List.range maxFutexWaiters) _ ?_ hsleepers
    · show (k.expireFutex n).FutexNamed context
      unfold Kernel.expireFutex
      split
      · exact hk
      · rename_i entry hentry
        split
        · exact hk.fireFutex hb hentry
        · exact hk
    · exact BlockedInTable.woken (k := { k with timerTicks := k.timerTicks + 1 })
        hlt (Woken.foldl woken_expireSleeper _ _)
  | futex address count =>
    refine hfold (futexWakeOne address count) Prod.snd
      (fun state n => woken_futexWakeOne address count state n)
      (fun state n hb hk => ?_) (List.range maxFutexWaiters) (0, k) hlt h
    unfold futexWakeOne
    dsimp only
    split
    · exact hk
    · rename_i entry hentry
      split
      · exact hk.fireFutex hb hentry
      · exact hk
  | wake t =>
    unfold Kernel.wake
    split
    · exact h
    · exact h.makeReady t

theorem FutexNamed.wakeJoinWaiters (h : k.FutexNamed context) (t : ThreadId) :
    (k.wakeJoinWaiters t).FutexNamed context :=
  wakeJoinWaiters_keeps (R := fun k => k.FutexNamed context)
    (fun _ t hk => hk.makeReady t) h t

theorem FutexNamed.yieldNow (h : k.FutexNamed k.contextOf) (hw : k.WellFormed) :
    k.yieldNow.FutexNamed k.yieldNow.contextOf := by
  have hleave := h.leave .yielded fun address due heq => nomatch heq
  unfold Kernel.yieldNow
  dsimp only
  rw [if_neg hw.ne_noThread]
  split
  · exact hleave.dispatch (schedule_spec _ _).1
  · have hready : ((k.setState k.currentThread .ready).enqueue
        k.currentThread).FutexNamed (k.contextAt .yielded) :=
      (hleave.updateThread k.currentThread
        (f := fun t => { t with state := .ready }) fun hx => nomatch hx).enqueue
        k.currentThread
    have hfields := (k.setState k.currentThread .ready).enqueue_fields
      k.currentThread
    have hcurrent : ((k.setState k.currentThread .ready).enqueue
        k.currentThread).currentThread = k.currentThread := by
      unfold Kernel.enqueue
      split <;> rfl
    have hcontext : ∀ t, ((k.setState k.currentThread .ready).enqueue
        k.currentThread).contextOf t = k.contextOf t := by
      intro t
      rw [← k.contextOf_updateThread k.currentThread
        (f := fun t => { t with state := .ready }) rfl t]
      unfold Kernel.enqueue
      split <;> rfl
    refine FutexNamed.dispatch (FutexNamed.congr hready rfl (fun _ ht => ht)
      fun t address due _ hc => ?_) (schedule_spec _ _).1
    unfold contextAt at hc ⊢
    rwa [hcurrent, hcontext] at hc

theorem FutexNamed.blocked (h : k.FutexNamed k.contextOf) {a : Action} {c : Context}
    (hreg : k.Registers a c k') (hne : k.currentThread ≠ noThread ∧
      k.currentThread ≠ idleThread) :
    (k'.blockCurrent c).FutexNamed (k'.blockCurrent c).contextOf := by
  have hstill := still_registers hreg
  have hcur := hstill.currentThread
  obtain ⟨-, hctx, -⟩ := hreg.frame
  -- The new entry, if the thread waits for a futex, and the old ones.
  have hnew : ∀ address due, c = .futexWaiting address due →
      ∃ i < maxFutexWaiters, ∃ e, k'.futexWaiters i = some e ∧
        e.thread = k.currentThread ∧ e.address = address := by
    intro address due hc
    cases hreg with
    | raw | sleep | join | wait => cases hc
    | futex actual expected timeout index a d hlt hfree =>
      obtain ⟨rfl, rfl⟩ := Context.futexWaiting.inj hc
      exact ⟨index, hlt, _, put_same _ _ _, rfl, rfl⟩
  have hold : ∀ i e, k.futexWaiters i = some e → k'.futexWaiters i = some e := by
    intro i e he
    cases hreg with
    | raw | sleep | join | wait => exact he
    | futex actual expected timeout index a d hlt hfree =>
      refine (put_other ?_).trans he
      rintro rfl
      rw [hfree] at he
      cases he
  unfold Kernel.blockCurrent
  dsimp only
  rw [hcur, if_neg (not_or.mpr hne)]
  refine FutexNamed.dispatch ?_ (schedule_spec _ _).1
  intro t address due hb hc
  have hc' : (if t = k'.currentThread then some c
    else (k'.setState k.currentThread .blocked).contextOf t) =
      some (.futexWaiting address due) := hc
  have hb' : (put k'.threads k.currentThread _ t).state = .blocked := hb
  by_cases ht : t = k.currentThread
  · rw [ht, hcur, if_pos rfl] at hc'
    rw [ht]
    exact hnew address due (Option.some.inj hc')
  · rw [hcur, if_neg ht] at hc'
    rw [put_other ht, hstill.state] at hb'
    have hctx' := k'.contextOf_updateThread k.currentThread
      (f := fun t => { t with state := .blocked }) rfl t
    have hcontext : k.contextOf t = some (.futexWaiting address due) := by
      rw [← hctx, ← hctx']
      exact hc'
    obtain ⟨i, hi, e, he, hthread, haddress⟩ := h t address due hb' hcontext
    exact ⟨i, hi, e, hold i e he, hthread, haddress⟩

theorem FutexNamed.exitCurrent (h : k.FutexNamed k.contextOf)
    (hne : k.currentThread ≠ noThread ∧ k.currentThread ≠ idleThread)
    (status : Nat) :
    (k.exitCurrent status).FutexNamed (k.exitCurrent status).contextOf := by
  have hleave := h.leave .finished fun address due heq => nomatch heq
  unfold Kernel.exitCurrent
  dsimp only
  rw [if_neg (not_or.mpr hne)]
  have hended := hleave.updateThread k.currentThread (f := fun t =>
      { t with
        state := .exited
        entry := none
        exitStatus := status
        reapable := !t.isUser }) fun hx => nomatch hx
  have hctx := k.contextOf_updateThread k.currentThread (f := fun t =>
      { t with
        state := .exited
        entry := none
        exitStatus := status
        reapable := !t.isUser }) rfl
  generalize hk₁ : (k.updateThread k.currentThread fun t =>
      { t with
        state := .exited
        entry := none
        exitStatus := status
        reapable := !t.isUser }).record (.exited k.currentThread status) = k₁
  have hrecord : k₁.FutexNamed (k.contextAt .finished) := by
    rw [← hk₁]
    exact hended
  have hctx₁ : ∀ t, k₁.contextOf t = k.contextOf t := by rw [← hk₁]; exact hctx
  have hcur₁ : k₁.currentThread = k.currentThread := by rw [← hk₁]; rfl
  have hwoken := k₁.woken_wakeJoinWaiters k.currentThread
  have hreparent : ∀ k₂ : Kernel, (k₂.reparentChildrenOfExitedProcess
      k.currentThread).threads = k₂.threads ∧
      (k₂.reparentChildrenOfExitedProcess k.currentThread).futexWaiters =
        k₂.futexWaiters ∧
      (k₂.reparentChildrenOfExitedProcess k.currentThread).currentThread =
        k₂.currentThread ∧
      (k₂.reparentChildrenOfExitedProcess k.currentThread).resuming =
        k₂.resuming := by
    intro k₂
    unfold reparentChildrenOfExitedProcess
    split
    · exact ⟨rfl, rfl, rfl, rfl⟩
    · obtain ⟨log, heq, -⟩ := k₂.reparentChildren_spec _ k.currentThread
      rw [heq]
      exact ⟨rfl, rfl, rfl, rfl⟩
  obtain ⟨hthreads, hfutexes, hcurrent, hresuming⟩ :=
    hreparent (k₁.wakeJoinWaiters k.currentThread)
  refine FutexNamed.dispatch ((hrecord.wakeJoinWaiters k.currentThread).congr
    hfutexes (fun t ht => by rwa [hthreads] at ht) fun t address due _ hc => ?_)
    (schedule_spec _ _).1
  unfold contextAt at hc ⊢
  rw [hcurrent, hwoken.currentThread, hcur₁] at hc
  split at hc
  · rename_i ht
    rw [if_pos ht]
    exact hc
  · rename_i ht
    rw [if_neg ht, ← hctx₁, ← hwoken.contextOf]
    unfold contextOf at hc ⊢
    rwa [hcurrent, hresuming, hthreads] at hc

theorem FutexNamed.step (h : k.FutexNamed k.contextOf) (hw : k.WellFormed)
    {a : Action} (hstep : k.step a = some k') : k'.FutexNamed k'.contextOf := by
  have hclear : { k with resuming := none }.FutexNamed
      { k with resuming := none }.contextOf := by
    refine h.congr rfl (fun _ ht => ht) fun t address due _ hc => ?_
    rw [contextOf_clear] at hc
    split at hc
    · cases hc
    · exact hc
  have hupdate : ∀ (k : Kernel), k.FutexNamed k.contextOf → ∀ (t : ThreadId)
      (f : Thread → Thread), (f (k.threads t)).context = (k.threads t).context →
      ((f (k.threads t)).state = .blocked → (k.threads t).state = .blocked) →
        (k.updateThread t f).FutexNamed (k.updateThread t f).contextOf := by
    intro k hk t f hcontext hf
    rw [funext (k.contextOf_updateThread t hcontext)]
    exact hk.updateThread t hf
  have hmark : ∀ (k : Kernel), k.FutexNamed k.contextOf → ∀ t,
      (k.markReapable t).FutexNamed (k.markReapable t).contextOf := by
    intro k hk t
    unfold Kernel.markReapable
    split
    · exact hupdate k hk t _ rfl id
    · exact hk
  have hleft : ∀ t, (k.leaveJoin t).FutexNamed (k.leaveJoin t).contextOf := by
    intro t
    unfold Kernel.leaveJoin dropJoinWaiter
    refine hmark _ ?_ t
    split
    · exact hupdate _ hclear t _ rfl id
    · exact hclear
  have hcollect : ∀ (k : Kernel), k.FutexNamed k.contextOf → ∀ p t status,
      (k.collect p t status).FutexNamed (k.collect p t status).contextOf := by
    intro k hk p t status
    unfold Kernel.collect
    dsimp only
    split
    · exact hk
    · exact hk
  have hhanded : ∀ (k k' : Kernel), k.FutexNamed k.contextOf → ∀ slot entry
      process isUser, k.Handed slot entry process isUser k' →
        k'.FutexNamed k'.contextOf := by
    rintro k k' hk slot entry process isUser ⟨k₁, context, owns, hq, -, rfl⟩
    generalize hthread : newThread (k₁.threads slot) entry process context isUser
      owns = thread
    have hready : thread.state = .ready := by rw [← hthread]; rfl
    have hthreads : (k₁.install slot thread).threads =
        put k₁.threads slot thread :=
      (((k₁.updateThread slot fun _ => thread).record (.handed slot)).enqueue_fields
        slot).1
    have hother : ∀ t, ((k₁.install slot thread).threads t).state = .blocked →
        (k₁.install slot thread).threads t = k₁.threads t := by
      intro t ht
      rw [hthreads] at ht ⊢
      by_cases hslot : t = slot
      · rw [hslot, put_same, hready] at ht
        cases ht
      · exact put_other hslot
    refine (hk.quiet hq).congr ?_ (fun t ht => by rwa [← hother t ht])
      fun t address due hb hc => ?_
    · unfold install Kernel.enqueue
      split <;> rfl
    · have hcurrent : (k₁.install slot thread).currentThread = k₁.currentThread ∧
          (k₁.install slot thread).resuming = k₁.resuming := by
        unfold install Kernel.enqueue
        split <;> exact ⟨rfl, rfl⟩
      unfold contextOf at hc ⊢
      rwa [hcurrent.1, hcurrent.2, hother t hb] at hc
  have hrecorded : ∀ p k', k.Recorded p k' → k'.FutexNamed k'.contextOf := by
    rintro p k' ⟨k₁, k₂, space, h₁, h₂, h₃⟩
    obtain ⟨slot, -, -, -, -, rfl⟩ := createProcess_some h₂
    have hnamed : ∀ record, ((k₁.setRecord slot record).record
        (.created p space)).FutexNamed (k₁.setRecord slot record).contextOf :=
      fun _ => (h.quiet h₁).congr rfl (fun _ ht => ht) fun _ _ _ _ hc => hc
    exact FutexNamed.quiet (hnamed _) h₃
  cases step_effect hw.idle.1 hstep with
  | quiet hq => exact h.quiet hq
  | woken hr hwakes hq =>
    have hnamed := h.wakes hw.toSlots.blockedInTable hwakes
    rw [← funext hwakes.woken.contextOf] at hnamed
    exact hnamed.quiet hq
  | resumed hr hlive hq => exact hclear.quiet hq
  | joined hr hexited hq => exact (hleft _).quiet hq
  | waited hr hexited hq => exact (hcollect _ (hleft _) _ _ _).quiet hq
  | yielded hr => exact h.yieldNow hw
  | exited status hr hidle => exact h.exitCurrent ⟨hw.ne_noThread, hidle⟩ status
  | blocked hr hidle hreg => exact h.blocked hreg ⟨hw.ne_noThread, hidle⟩
  | reaped hr hlt hne hexited hq => exact (hmark k h _).quiet hq
  | collected hr hchild hlt hne hexited hq =>
    exact (hcollect _ (hmark k h _) _ _ _).quiet hq
  | terminated hr hchild hlookup hlive hq =>
    rename_i p t slot
    have hended : (k.endThread p t).FutexNamed (k.endThread p t).contextOf :=
      hupdate k h t (fun t =>
        { t with
          state := .exited
          entry := none
          exitStatus := terminatedStatus }) rfl fun hx => nomatch hx
    have hwoken := (k.endThread p t).woken_wakeJoinWaiters t
    have hnamed := hended.wakeJoinWaiters t
    rw [← funext hwoken.contextOf] at hnamed
    exact hnamed.quiet hq
  | handed hr hspawns hkind hprocess hhand hq =>
    exact (hhanded _ _ h _ _ _ _ hhand).quiet hq
  | recorded hr huser hrec => exact hrecorded _ _ hrec
  | spawned hr huser hrec hhand hq =>
    have hset : ∀ (k : Kernel) p t, k.FutexNamed k.contextOf →
        (k.setProcessMainThread p t).FutexNamed
          (k.setProcessMainThread p t).contextOf := by
      intro k p t hk
      unfold setProcessMainThread
      split
      · exact hk
      · exact hk
    exact (hset _ _ _ (hhanded _ _ (hrecorded _ _ hrec) _ _ _ _ hhand)).quiet hq

theorem Booted.futexNamed {k : Kernel} (h : k.Booted) :
    k.FutexNamed k.contextOf := by
  intro t address due _ hc
  rw [h.contextOf] at hc
  cases hc

end Step

/-! ## One call -/

section Call

variable {k k' : Kernel} {address count : Nat} {t : ThreadId}

/-- The entries that a wake-up comes to before it has woken enough threads
were registered by the caller's process, and a blocked thread that one of them
names is one of its waiters. -/
def Attributed.OwnEntriesFirst (s : Attributed) (address count : Nat) : Prop :=
  ∀ i < maxFutexWaiters, ∀ e, s.kernel.futexWaiters i = some e → e.address = address →
    (s.kernel.offeredBefore address i).card < count →
      s.registrar i = s.kernel.instanceOf s.kernel.currentThread ∧
        ((s.kernel.threads e.thread).state = .blocked →
          s.kernel.waitsOn address e.thread)

theorem mem_waiters : t ∈ k.waiters address ↔
    t < maxThreads ∧ k.waitsOn address t := by
  simp only [waiters, Finset.mem_filter, Finset.mem_range]

theorem Attributed.OwnEntriesFirst.chosen_subset {s : Attributed}
    (h : s.OwnEntriesFirst address count) :
    s.kernel.chosenBefore address count maxFutexWaiters ⊆ s.kernel.waiters address := by
  intro t ht
  obtain ⟨hmax, i, hi, hoffers, hshort⟩ := mem_chosenBefore.mp ht
  obtain ⟨hb, e, he, haddress, rfl⟩ := offers_iff.mp hoffers
  exact mem_waiters.mpr ⟨hmax, (h i hi e he haddress hshort).2 hb⟩

theorem Attributed.Reached.reachedFrom {memory : Memory} {s : Attributed}
    (h : s.Reached memory) : ReachedFrom memory Always s.kernel := by
  obtain ⟨image, k₀, hk₀, hrun⟩ := h
  refine ⟨image, k₀, hk₀, ?_⟩
  apply hrun.invariant (fun s => Run Kernel.step Always k₀ s.kernel)
  · intro t a u ht _ hstep
    obtain ⟨k, hk, hu⟩ := Option.map_eq_some_iff.mp hstep
    rw [← hu]
    exact .step a ht trivial hk
  · exact .refl

/-- Every waiter is named by an entry for its address. -/
theorem FutexNamed.waiters_subset (h : k.FutexNamed k.contextOf)
    (address : Nat) :
    k.waiters address ⊆ k.offeredBefore address maxFutexWaiters := by
  intro t ht
  obtain ⟨hmax, hwaits⟩ := mem_waiters.mp ht
  unfold waitsOn at hwaits
  rw [Bool.and_eq_true, Bool.and_eq_true, beq_iff_eq] at hwaits
  obtain ⟨⟨hb, -⟩, hcontext⟩ := hwaits
  split at hcontext
  · rename_i a due hc
    obtain ⟨i, hi, e, he, hthread, haddress⟩ := h t a due hb hc
    refine mem_offeredBefore.mpr ⟨hmax, i, hi, offers_iff.mpr ⟨hb, e, he, ?_, hthread⟩⟩
    rw [haddress, beq_iff_eq.mp hcontext]
  · cases hcontext

/-- The threads that the loop moves are those that it chooses. -/
theorem Turn.moved {index woken : Nat} (h : Turn k address count index woken k') :
    k.moved k' = k.chosenBefore address count index := by
  ext t
  simp only [Kernel.moved, Finset.mem_filter, Finset.mem_range]
  constructor
  · rintro ⟨-, hb, hready⟩
    rw [h.state] at hready
    by_contra hout
    rw [if_neg hout, hb] at hready
    cases hready
  · intro ht
    obtain ⟨hmax, i, -, hoffers, -⟩ := mem_chosenBefore.mp ht
    refine ⟨hmax, (offers_iff.mp hoffers).1, ?_⟩
    rw [h.state, if_pos ht]

/-- A `futex_wake` of a valid word is the loop over the table. -/
theorem futexWake_of_step (hvalid : validUserWord address)
    (hstep : k.step (.futexWake address count) = some k') :
    k' = (((List.range maxFutexWaiters).foldl (futexWakeOne address count)
      (0, k)).2).returnValue
        ((List.range maxFutexWaiters).foldl (futexWakeOne address count)
          (0, k)).1 := by
  unfold step at hstep
  split at hstep
  · have hk' : k.futexWake address count = k' := Option.some.inj hstep
    rw [← hk']
    unfold futexWake
    rw [if_neg (not_not.mpr hvalid)]
  · cases hstep

/-- A `futex_wake` is exact when the entries that it comes to were registered
by the caller's process and name no other blocked threads than its waiters, and
only then. -/
theorem futexWake_exact {memory : Memory} {s : Attributed} (h : s.Reached memory)
    (hvalid : validUserWord address)
    (hstep : s.kernel.step (.futexWake address count) = some k') :
    s.WakesExactly address count k' ↔ s.OwnEntriesFirst address count := by
  obtain ⟨hw, hnamed⟩ := h.reachedFrom.invariant (fun k => k.FutexNamed k.contextOf)
    (fun _ hk => hk.futexNamed) fun _ _ _ hw hk _ hstep => hk.step hw hstep
  have hlt := hw.toSlots.blockedInTable
  have hturn := s.kernel.futexWake_turn address count hlt
  have hk' := futexWake_of_step hvalid hstep
  generalize (List.range maxFutexWaiters).foldl (futexWakeOne address count)
    (0, s.kernel) = result at hturn hk'
  have hmoved : s.kernel.moved k' = s.kernel.chosenBefore address count maxFutexWaiters := by
    rw [hk']
    exact hturn.moved
  have hremoved : ∀ i e, s.kernel.futexWaiters i = some e →
      (k'.futexWaiters i ≠ some e ↔ i < maxFutexWaiters ∧ e.address = address ∧
        (s.kernel.offeredBefore address i).card < count) := by
    intro i e he
    rw [hk']
    exact hturn.removed i e he
  constructor
  · intro hexact i hi e he haddress hshort
    obtain ⟨-, hown, hwaits⟩ :=
      hexact.removed i e he ((hremoved i e he).mpr ⟨hi, haddress, hshort⟩)
    exact ⟨hown, fun hb => (mem_waiters.mp (hwaits hb)).2⟩
  · intro hfirst
    have hsub := hfirst.chosen_subset
    have hcard := hturn.card_eq
    have hcount := hturn.count_eq
    have hwaiters := Finset.card_le_card (hnamed.waiters_subset address)
    have hchosen := Finset.card_le_card hsub
    refine { woken := hmoved ▸ hsub, card := ?_, value := ?_, removed := ?_ }
    · rw [hmoved, hcard]
      by_cases hle : (s.kernel.offeredBefore address maxFutexWaiters).card ≤ count
      · rw [hturn.all hle] at hchosen
        omega
      · omega
    · rw [hmoved, hcard, hk', ← hturn.current]
      rfl
    · intro i e he hne
      obtain ⟨hi, haddress, hshort⟩ := (hremoved i e he).mp hne
      obtain ⟨hown, hwaits⟩ := hfirst i hi e he haddress hshort
      exact ⟨haddress, hown, fun hb => mem_waiters.mpr ⟨hlt _ hb, hwaits hb⟩⟩

end Call

/-- The state after some actions of a kernel with a small executable. -/
def attributedAfter (actions : List Action) : Option Attributed :=
  (boot plainMemory smallImage).bind fun k₀ =>
    exec Attributed.step Always actions ⟨k₀, fun _ => none⟩

theorem attributedAfter_reached {actions : List Action} {s : Attributed}
    (h : attributedAfter actions = some s) : s.Reached plainMemory := by
  obtain ⟨k₀, hk₀, hs⟩ := Option.bind_eq_some_iff.mp h
  exact ⟨smallImage, k₀, hk₀, run_of_exec hs⟩

set_option maxRecDepth 100000 in
/-- A second thread of PID 1 waits, and the first one wakes it. -/
theorem futexWake_exact_own : ∃ (s : Attributed) (k' : Kernel),
    s.Reached plainMemory ∧ s.kernel.step (.futexWake futureUserSpaceBase 1) = some k' ∧
      s.WakesExactly futureUserSpaceBase 1 k' ∧
      (s.kernel.waiters futureUserSpaceBase).card = 1 := by
  have hrun : (attributedAfter [.resume, .threadCreate futureUserSpaceBase 0 0, .yieldNow,
      .resume, .yieldNow, .resume, .futexWait futureUserSpaceBase 0 0 (2 ^ 64 - 1),
      .resume]).any fun s =>
        (s.kernel.step (.futexWake futureUserSpaceBase 1)).isSome &&
        ((List.range maxFutexWaiters).all fun i => (s.kernel.futexWaiters i).all fun e =>
          s.registrar i == s.kernel.instanceOf s.kernel.currentThread &&
            s.kernel.waitsOn futureUserSpaceBase e.thread) &&
        decide ((s.kernel.waiters futureUserSpaceBase).card = 1) := by
    decide +kernel
  obtain ⟨s, hs, hfound⟩ := (Option.any_eq_true _ _).mp hrun
  rw [Bool.and_eq_true, Bool.and_eq_true, decide_eq_true_iff] at hfound
  obtain ⟨⟨hstep, hentries⟩, hcard⟩ := hfound
  obtain ⟨k', hk'⟩ := Option.isSome_iff_exists.mp hstep
  have hown : s.OwnEntriesFirst futureUserSpaceBase 1 := by
    intro i hi e he _ _
    have hi' := List.all_eq_true.mp hentries i (List.mem_range.mpr hi)
    rw [he, Option.all_some, Bool.and_eq_true, beq_iff_eq] at hi'
    exact ⟨hi'.1, fun _ => hi'.2⟩
  have hreached := attributedAfter_reached hs
  exact ⟨s, k', hreached, hk', (futexWake_exact hreached (by decide) hk').mpr hown, hcard⟩

set_option maxRecDepth 100000 in
/-- A thread of PID 2 waits on an address.  PID 1 wakes it there. -/
theorem foreign_wake : ∃ (s : Attributed) (k' : Kernel), s.Reached plainMemory ∧
    s.kernel.step (.futexWake futureUserSpaceBase 1) = some k' ∧
      ¬ s.WakesExactly futureUserSpaceBase 1 k' := by
  have hrun : (attributedAfter [.resume, .spawnSmall, .yieldNow, .resume, .yieldNow, .resume,
      .futexWait futureUserSpaceBase 0 0 (2 ^ 64 - 1), .resume]).any fun s =>
        (s.kernel.step (.futexWake futureUserSpaceBase 1)).any fun k' =>
          decide (2 ∈ s.kernel.moved k') && !s.kernel.waitsOn futureUserSpaceBase 2 := by
    decide +kernel
  obtain ⟨s, hs, hfound⟩ := (Option.any_eq_true _ _).mp hrun
  obtain ⟨k', hk', hwrong⟩ := (Option.any_eq_true _ _).mp hfound
  rw [Bool.and_eq_true, decide_eq_true_iff, Bool.not_eq_true'] at hwrong
  refine ⟨s, k', attributedAfter_reached hs, hk', fun h => ?_⟩
  have hwaits := (mem_waiters.mp (h.woken hwrong.1)).2
  rw [hwrong.2] at hwaits
  cases hwaits

end Kernel

end OpenKernel
