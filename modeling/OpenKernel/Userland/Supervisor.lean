import Mathlib.Algebra.Group.Nat.Defs
import Mathlib.Data.List.Nodup
import OpenKernel.Lib.Put
import OpenKernel.Lib.Runs

/-!
# The supervisor

The model of `init/src/main.rs`: the order in which services start, the boot
loop, and the loop of `supervise` with `reap`.  What the kernel answers to a
spawn, a wait or a reap is part of the action; of the kernel itself the model
keeps the children of init that nobody has reaped yet.  The path and the
arguments of a service only go to `spawn_process` and are left out.

Ghost fields list the services that have been started once and those whose
restart has failed.
-/

namespace OpenKernel

open Lib

inductive Kind
  | oneshot
  | daemon
  deriving DecidableEq, Repr

inductive Restart
  | never
  | onFailure
  | always
  deriving DecidableEq, Repr

structure Service where
  name : String
  dependsOn : List String
  kind : Kind
  restart : Restart
  deriving DecidableEq, Repr

/-! ## The start order -/

/-- `started` and `order` of `start_order`. -/
structure StartOrder where
  started : List String
  order : List Service

/-- The body of the inner loop of `start_order`. -/
def StartOrder.visit (o : StartOrder) (service : Service) : StartOrder :=
  if service.name ∈ o.started then o
  else if ∀ dependency ∈ service.dependsOn, dependency ∈ o.started then
    { started := o.started ++ [service.name]
      order := o.order ++ [service] }
  else o

/-- One pass over the service table. -/
def StartOrder.pass (services : List Service) (o : StartOrder) : StartOrder :=
  services.foldl StartOrder.visit o

/-- The outer loop.  Every turn that goes on has put at least one service into
the order, so the fuel never falls below what is missing. -/
def StartOrder.loop (services : List Service) : Nat → StartOrder → List Service
  | 0, o => o.order
  | fuel + 1, o =>
    if o.order.length < services.length then
      let next := o.pass services
      if o.order.length < next.order.length then loop services fuel next
      else
        next.order ++ services.filter fun service =>
          service.name ∉ next.started
    else o.order

/-- `start_order`. -/
def startOrder (services : List Service) : List Service :=
  StartOrder.loop services services.length { started := [], order := [] }

namespace StartOrder

/-- The order names services of the table, each once, and `started` lists
their names. -/
structure Names (services : List Service) (o : StartOrder) : Prop where
  started : o.order.map (·.name) = o.started
  nodup : o.started.Nodup
  subset : ∀ service ∈ o.order, service ∈ services

variable {services : List Service} {o : StartOrder}

theorem Names.visit {service : Service} (h : o.Names services)
    (hmem : service ∈ services) : (o.visit service).Names services := by
  unfold StartOrder.visit
  split
  · exact h
  · rename_i hnew
    split
    · refine ⟨?_, ?_, ?_⟩
      · rw [List.map_append, h.started]
        rfl
      · rw [List.nodup_append]
        refine ⟨h.nodup, List.nodup_singleton _, ?_⟩
        rintro name hname other hother rfl
        rw [List.mem_singleton.mp hother] at hname
        exact hnew hname
      · intro other hother
        rcases List.mem_append.mp hother with hold | hlast
        · exact h.subset other hold
        · rw [List.mem_singleton.mp hlast]
          exact hmem
    · exact h

theorem Names.pass (h : o.Names services) : (o.pass services).Names services := by
  have hall : ∀ (visited : List Service) (o : StartOrder),
      (∀ service ∈ visited, service ∈ services) → o.Names services →
      (visited.foldl StartOrder.visit o).Names services := by
    intro visited
    induction visited with
    | nil => exact fun o _ ho => ho
    | cons service visited ih =>
      intro o hvisited ho
      exact ih _ (fun other hother => hvisited other (by simp [hother]))
        (ho.visit (hvisited service (by simp)))
  exact hall services o (fun _ hmem => hmem) h

/-- What `start_order` returns is the table, or part of it, in some order. -/
theorem loop_spec (hnames : (services.map (·.name)).Nodup) (fuel : Nat)
    (h : o.Names services) :
    ((loop services fuel o).map (·.name)).Nodup ∧
      ∀ service ∈ loop services fuel o, service ∈ services := by
  induction fuel generalizing o with
  | zero =>
    rw [loop, h.started]
    exact ⟨h.nodup, h.subset⟩
  | succ fuel ih =>
    rw [loop]
    split
    · dsimp only
      split
      · exact ih h.pass
      · have hpass := h.pass
        constructor
        · rw [List.map_append, hpass.started, List.nodup_append]
          refine ⟨hpass.nodup,
            hnames.sublist (List.Sublist.map _ List.filter_sublist), ?_⟩
          rintro name hname other hother rfl
          obtain ⟨service, hservice, rfl⟩ := List.mem_map.mp hother
          have hnot := (List.mem_filter.mp hservice).2
          simp [hname] at hnot
        · intro service hservice
          rcases List.mem_append.mp hservice with hold | hleft
          · exact hpass.subset service hold
          · exact (List.mem_filter.mp hleft).1
    · rw [h.started]
      exact ⟨h.nodup, h.subset⟩

end StartOrder

theorem startOrder_spec {services : List Service}
    (hnames : (services.map (·.name)).Nodup) :
    ((startOrder services).map (·.name)).Nodup ∧
      ∀ service ∈ startOrder services, service ∈ services :=
  StartOrder.loop_spec hnames _
    ⟨rfl, List.nodup_nil, fun _ h => nomatch h⟩

/-! ## Init -/

/-- What is left to do after a `start_service`. -/
inductive Continuation
  | boot (rest : List Service)
  | reap
  deriving DecidableEq

/-- Where init is. -/
inductive InitPhase
  /-- the loop of `main` over the start order -/
  | booting (rest : List Service)
  /-- before the `spawn_process` of a service -/
  | starting (service : Service) (attempt : Nat) (next : Continuation)
  /-- in the `wait_process` of `run_oneshot` -/
  | waiting (service : Service) (attempt pid : Nat) (next : Continuation)
  /-- at the head of the loop of `supervise` -/
  | head
  /-- at the head of its inner loop -/
  | reaping
  /-- in `shutdown_sequence` -/
  | stopping
  deriving DecidableEq

/-- A child of init that is not reaped. -/
inductive Child
  | alive
  | exited (status : Nat)
  deriving DecidableEq

structure InitState where
  /-- the map `running`, from the service to the pid of its process -/
  running : List (String × Nat)
  phase : InitPhase
  children : Nat → Option Child
  startedOnce : List String
  failedRestarts : List String

inductive InitAction
  /-- the next service of the start order -/
  | boot
  /-- the answer to `spawn_process` -/
  | spawn (answer : Option Nat)
  /-- the answer to `wait_process` -/
  | wait (answer : Option Nat)
  /-- the answer to `poll_power_event` -/
  | poll (event : Nat)
  /-- the answer to `reap_any_child` -/
  | reap (answer : Option (Nat × Nat))
  /-- a child exits -/
  | exit (pid status : Nat)
  /-- the kernel hands an orphan to init -/
  | adopt (pid : Nat) (child : Child)
  deriving DecidableEq

def InitPhase.after : Continuation → InitPhase
  | .boot rest => .booting rest
  | .reap => .reaping

def maxAttempts : Nat := 3

/-- The restart decision of `reap`. -/
def Service.restarts (service : Service) (status : Nat) : Bool :=
  match service.restart with
  | .always => true
  | .onFailure => status ≠ 0
  | .never => false

/-- The retry decision of `run_oneshot`. -/
def Service.retries (service : Service) (status attempt : Nat) : Bool :=
  status ≠ 0 && (service.restart == .onFailure || service.restart == .always) &&
    attempt < maxAttempts

/-- The services that have to be up again after every exit. -/
def Service.isKept (service : Service) : Prop :=
  service.kind = .daemon ∧ service.restart = .always

namespace InitState

/-- `running.insert`. -/
def insert (running : List (String × Nat)) (name : String) (pid : Nat) :
    List (String × Nat) :=
  (name, pid) :: running.filter (·.1 ≠ name)

/-- `running.remove`. -/
def remove (running : List (String × Nat)) (name : String) :
    List (String × Nat) :=
  running.filter (·.1 ≠ name)

/-- What follows the answer to `spawn_process`: the rest of `start_daemon`, or
the wait of `run_oneshot`.  The pid of a new process belongs to no child that
is still there. -/
def spawned (s : InitState) (service : Service) (attempt : Nat)
    (next : Continuation) : Option Nat → Option InitState
  | none =>
    some { s with
      phase := .after next
      failedRestarts :=
        if next = .reap then service.name :: s.failedRestarts
        else s.failedRestarts }
  | some pid =>
    if s.children pid = none then
      let s := { s with
        children := put s.children pid (some .alive)
        startedOnce := service.name :: s.startedOnce }
      match service.kind with
      | .daemon =>
        some { s with
          running := insert s.running service.name pid
          phase := .after next }
      | .oneshot => some { s with phase := .waiting service attempt pid next }
    else none

/-- What `run_oneshot` does with the answer to `wait_process`. -/
def waited (s : InitState) (service : Service) (attempt pid : Nat)
    (next : Continuation) (answer : Option Nat) : Option InitState :=
  let status := answer.getD (2 ^ 64 - 1)
  let phase :=
    if service.retries status attempt then
      .starting service (attempt + 1) next
    else .after next
  match answer with
  | none => some { s with phase }
  | some status =>
    if s.children pid = some (.exited status) then
      some { s with
        phase
        children := put s.children pid none }
    else none

/-- `reap`. -/
def reap (services : List Service) (s : InitState) (pid status : Nat) :
    Option InitState :=
  match s.running.find? (·.2 == pid) with
  | none => some s
  | some (name, _) =>
    (services.find? (·.name == name)).map fun service =>
      { s with
        running := remove s.running name
        phase :=
          if service.restarts status then .starting service 1 .reap
          else .reaping }

def step (services : List Service) (s : InitState) :
    InitAction → Option InitState
  | .boot =>
    match s.phase with
    | .booting [] => some { s with phase := .head }
    | .booting (service :: rest) =>
      some { s with phase := .starting service 1 (.boot rest) }
    | _ => none
  | .spawn answer =>
    match s.phase with
    | .starting service attempt next => s.spawned service attempt next answer
    | _ => none
  | .wait answer =>
    match s.phase with
    | .waiting service attempt pid next =>
      s.waited service attempt pid next answer
    | _ => none
  | .poll event =>
    match s.phase with
    | .head =>
      some { s with phase := if event ≠ 0 then .stopping else .reaping }
    | _ => none
  | .reap answer =>
    match s.phase, answer with
    | .reaping, none => some { s with phase := .head }
    | .reaping, some (pid, status) =>
      if s.children pid = some (.exited status) then
        reap services { s with children := put s.children pid none } pid status
      else none
    | _, _ => none
  | .exit pid status =>
    if s.children pid = some .alive then
      some { s with children := put s.children pid (some (.exited status)) }
    else none
  | .adopt pid child =>
    if s.children pid = none then
      some { s with children := put s.children pid (some child) }
    else none

/-- Init before its first service. -/
def start (services : List Service) : InitState :=
  { running := []
    phase := .booting (startOrder services)
    children := fun _ => none
    startedOnce := []
    failedRestarts := [] }

/-! ## What supervision promises -/

/-- The service runs, under a pid that is not reaped. -/
def Runs (s : InitState) (service : Service) : Prop :=
  ∃ pid, (service.name, pid) ∈ s.running ∧ s.children pid ≠ none

/-- Init gets to start the service again. -/
def StartsAgain (services : List Service) (s : InitState) (service : Service) :
    Prop :=
  ∃ t attempt next, Run (step services) Always s t ∧
    t.phase = .starting service attempt next

structure Supervises (services : List Service) (s : InitState) : Prop where
  kept : ∀ service ∈ services, service.isKept →
    service.name ∈ s.startedOnce →
    s.Runs service ∨ StartsAgain services s service
  pids : (s.running.map Prod.snd).Nodup

/-! ## The invariant -/

/-- The names of the services that run. -/
def keys (s : InitState) : List String := s.running.map Prod.fst

/-- What is left of the boot: services of the table, each once, that have not
been started, while nothing has been restarted. -/
structure Fresh (services : List Service)
    (startedOnce failedRestarts : List String) (rest : List Service) :
    Prop where
  nodup : (rest.map (·.name)).Nodup
  subset : ∀ service ∈ rest, service ∈ services
  new : ∀ service ∈ rest, service.name ∉ startedOnce
  failed : failedRestarts = []

/-- What holds at each place of init. -/
def Progress (services : List Service) (s : InitState) : Prop :=
  match s.phase with
  | .booting rest => Fresh services s.startedOnce s.failedRestarts rest
  | .starting service _ (.boot rest) =>
    service ∈ services ∧ service.name ∉ s.keys ∧
      Fresh services s.startedOnce s.failedRestarts rest ∧
      (∀ other ∈ rest, other.name ≠ service.name) ∧
      (service.kind = .daemon → service.name ∉ s.startedOnce)
  | .starting service _ .reap =>
    service ∈ services ∧ service.name ∉ s.keys ∧ service.kind = .daemon ∧
      service.name ∈ s.startedOnce ∧ service.name ∉ s.failedRestarts
  | .waiting service _ pid (.boot rest) =>
    service ∈ services ∧ service.name ∉ s.keys ∧
      Fresh services s.startedOnce s.failedRestarts rest ∧
      (∀ other ∈ rest, other.name ≠ service.name) ∧
      service.kind = .oneshot ∧ ∀ entry ∈ s.running, entry.2 ≠ pid
  | .waiting _ _ _ .reap => False
  | .head | .reaping | .stopping => True

structure Inv (services : List Service) (s : InitState) : Prop where
  names : s.keys.Nodup
  pids : (s.running.map Prod.snd).Nodup
  alive : ∀ entry ∈ s.running, s.children entry.2 ≠ none
  daemons : ∀ entry ∈ s.running, ∃ service ∈ services,
    service.name = entry.1 ∧ service.kind = .daemon ∧
      service.name ∈ s.startedOnce ∧ service.name ∉ s.failedRestarts
  failed : ∀ name ∈ s.failedRestarts, name ∈ s.startedOnce
  kept : ∀ service ∈ services, service.isKept →
    service.name ∈ s.startedOnce →
    service.name ∈ s.failedRestarts ∨ service.name ∈ s.keys ∨
      ∃ attempt, s.phase = .starting service attempt .reap
  progress : s.Progress services

theorem inv_start {services : List Service}
    (hnames : (services.map (·.name)).Nodup) : (start services).Inv services := by
  obtain ⟨hnodup, hsubset⟩ := startOrder_spec hnames
  exact
    { names := List.nodup_nil
      pids := List.nodup_nil
      alive := fun _ h => nomatch h
      daemons := fun _ h => nomatch h
      failed := fun _ h => nomatch h
      kept := fun _ _ _ h => nomatch h
      progress := ⟨hnodup, hsubset, fun _ _ => List.not_mem_nil, rfl⟩ }

variable {services : List Service} {s t : InitState}

/-- Only the phase changes, and no restart is forgotten. -/
theorem Inv.move (h : s.Inv services) (phase : InitPhase)
    (hkept : ∀ service attempt, s.phase = .starting service attempt .reap →
      ∃ attempt, phase = .starting service attempt .reap)
    (hprogress : Progress services { s with phase }) :
    Inv services { s with phase } := by
  obtain ⟨h1, h2, h3, h4, h5, h6, -⟩ := h
  refine ⟨h1, h2, h3, h4, h5, ?_, hprogress⟩
  intro service hmem hisKept hstarted
  rcases h6 service hmem hisKept hstarted with hfailed | hkey | ⟨attempt, hphase⟩
  · exact Or.inl hfailed
  · exact Or.inr (Or.inl hkey)
  · exact Or.inr (Or.inr (hkept service attempt hphase))

theorem Inv.boot (h : s.Inv services) (hstep : s.step services .boot = some t) :
    t.Inv services := by
  have hprogress := h.progress
  simp only [step] at hstep
  split at hstep
  · rename_i hphase
    obtain rfl := Option.some.inj hstep
    exact h.move .head (fun _ _ heq => by rw [hphase] at heq; cases heq) trivial
  · rename_i service rest hphase
    obtain rfl := Option.some.inj hstep
    simp only [Progress, hphase] at hprogress
    obtain ⟨hnodup, hsubset, hnew, hfailed⟩ := hprogress
    rw [List.map_cons, List.nodup_cons] at hnodup
    apply h.move (.starting service 1 (.boot rest))
      (fun _ _ heq => by rw [hphase] at heq; cases heq)
    have hservice := hnew service (by simp)
    refine ⟨hsubset service (by simp), ?_, ⟨hnodup.2, ?_, ?_, hfailed⟩, ?_,
      fun _ => hservice⟩
    · intro hkey
      obtain ⟨entry, hentry, hname⟩ := List.mem_map.mp hkey
      obtain ⟨other, -, hother, -, hstarted, -⟩ := h.daemons entry hentry
      rw [hother, hname] at hstarted
      exact hservice hstarted
    · exact fun other hother => hsubset other (by simp [hother])
    · exact fun other hother => hnew other (by simp [hother])
    · intro other hother hsame
      exact hnodup.1 (List.mem_map.mpr ⟨other, hother, hsame⟩)
  · cases hstep

theorem Inv.poll {event : Nat} (h : s.Inv services)
    (hstep : s.step services (.poll event) = some t) : t.Inv services := by
  simp only [step] at hstep
  split at hstep
  · rename_i hphase
    obtain rfl := Option.some.inj hstep
    apply h.move _ (fun _ _ heq => by rw [hphase] at heq; cases heq)
    by_cases hevent : event ≠ 0
    · rw [if_pos hevent]
      exact trivial
    · rw [if_neg hevent]
      exact trivial
  · cases hstep

/-- A change of the children that takes none of those that run. -/
theorem Inv.setChildren (h : s.Inv services) {children : Nat → Option Child}
    (halive : ∀ entry ∈ s.running, children entry.2 ≠ none) :
    Inv services { s with children } := by
  obtain ⟨h1, h2, -, h4, h5, h6, h7⟩ := h
  exact ⟨h1, h2, halive, h4, h5, h6, h7⟩

theorem Inv.exit {pid status : Nat} (h : s.Inv services)
    (hstep : s.step services (.exit pid status) = some t) :
    t.Inv services := by
  simp only [step] at hstep
  split at hstep
  · obtain rfl := Option.some.inj hstep
    apply h.setChildren
    intro entry hentry
    by_cases hpid : entry.2 = pid
    · rw [hpid, put_same]
      exact fun heq => nomatch heq
    · rw [put_other hpid]
      exact h.alive entry hentry
  · cases hstep

theorem Inv.adopt {pid : Nat} {child : Child} (h : s.Inv services)
    (hstep : s.step services (.adopt pid child) = some t) :
    t.Inv services := by
  simp only [step] at hstep
  split at hstep
  · obtain rfl := Option.some.inj hstep
    apply h.setChildren
    intro entry hentry
    by_cases hpid : entry.2 = pid
    · rw [hpid, put_same]
      exact fun heq => nomatch heq
    · rw [put_other hpid]
      exact h.alive entry hentry
  · cases hstep

theorem service_eq_of_name (hnames : (services.map (·.name)).Nodup)
    {a b : Service} (ha : a ∈ services) (hb : b ∈ services)
    (hname : a.name = b.name) : a = b :=
  List.inj_on_of_nodup_map hnames ha hb hname

/-- A name that is not there is simply added. -/
theorem insert_of_notMem {name : String} {pid : Nat} (h : name ∉ s.keys) :
    insert s.running name pid = (name, pid) :: s.running := by
  rw [insert, List.filter_eq_self.mpr]
  intro entry hentry
  rw [decide_eq_true_iff]
  rintro rfl
  exact h (List.mem_map.mpr ⟨entry, hentry, rfl⟩)

/-- The pid of a new process is in no entry. -/
theorem Inv.pid_notMem (h : s.Inv services) {pid : Nat}
    (hpid : s.children pid = none) : ∀ entry ∈ s.running, entry.2 ≠ pid := by
  rintro entry hentry rfl
  exact h.alive entry hentry hpid

/-- A failed `spawn_process` of a restart. -/
theorem Inv.fail (h : s.Inv services) {service : Service} {attempt : Nat}
    (hphase : s.phase = .starting service attempt .reap) :
    Inv services { s with
      phase := .reaping
      failedRestarts := service.name :: s.failedRestarts } := by
  have hprogress := h.progress
  simp only [Progress, hphase] at hprogress
  obtain ⟨hmem, hkey, hkind, hstarted, -⟩ := hprogress
  refine ⟨h.names, h.pids, h.alive, ?_, ?_, ?_, trivial⟩
  · intro entry hentry
    obtain ⟨other, hother, hname, hdaemon, honce, hnot⟩ :=
      h.daemons entry hentry
    refine ⟨other, hother, hname, hdaemon, honce, ?_⟩
    rw [List.mem_cons, not_or]
    refine ⟨fun hsame => hkey ?_, hnot⟩
    rw [← hsame, hname]
    exact List.mem_map.mpr ⟨entry, hentry, rfl⟩
  · intro name hname
    rcases List.mem_cons.mp hname with rfl | hold
    · exact hstarted
    · exact h.failed name hold
  · intro other hother hisKept honce
    rcases h.kept other hother hisKept honce with
      hfailed | hrunning | ⟨attempt', hsame⟩
    · exact Or.inl (List.mem_cons_of_mem _ hfailed)
    · exact Or.inr (Or.inl hrunning)
    · rw [hphase] at hsame
      obtain ⟨rfl, -, -⟩ := InitPhase.starting.inj hsame
      exact Or.inl List.mem_cons_self

/-- A daemon that has been started joins those that run. -/
theorem Inv.launch (h : s.Inv services) {service : Service} {pid : Nat}
    {phase : InitPhase} (hmem : service ∈ services)
    (hkey : service.name ∉ s.keys) (hdaemon : service.kind = .daemon)
    (hnot : service.name ∉ s.failedRestarts) (hpid : s.children pid = none)
    (hphase : ∀ other attempt, s.phase = .starting other attempt .reap →
      other = service)
    (hprogress : Progress services
      { running := (service.name, pid) :: s.running
        phase
        children := put s.children pid (some .alive)
        startedOnce := service.name :: s.startedOnce
        failedRestarts := s.failedRestarts }) :
    Inv services
      { running := (service.name, pid) :: s.running
        phase
        children := put s.children pid (some .alive)
        startedOnce := service.name :: s.startedOnce
        failedRestarts := s.failedRestarts } := by
  have hfresh := h.pid_notMem hpid
  refine ⟨?_, ?_, ?_, ?_, ?_, ?_, hprogress⟩
  · exact List.nodup_cons.mpr ⟨hkey, h.names⟩
  · refine List.nodup_cons.mpr ⟨fun hold => ?_, h.pids⟩
    obtain ⟨entry, hentry, hsame⟩ := List.mem_map.mp hold
    exact hfresh entry hentry hsame
  · intro entry hentry
    show put s.children pid _ entry.2 ≠ none
    rcases List.mem_cons.mp hentry with rfl | hold
    · rw [put_same]
      exact fun heq => nomatch heq
    · rw [put_other (hfresh entry hold)]
      exact h.alive entry hold
  · intro entry hentry
    rcases List.mem_cons.mp hentry with rfl | hold
    · exact ⟨service, hmem, rfl, hdaemon, List.mem_cons_self, hnot⟩
    · obtain ⟨other, hother, hname, hkind, honce, hrest⟩ :=
        h.daemons entry hold
      exact ⟨other, hother, hname, hkind, List.mem_cons_of_mem _ honce, hrest⟩
  · intro name hname
    exact List.mem_cons_of_mem _ (h.failed name hname)
  · intro other hother hisKept honce
    by_cases hsame : other.name = service.name
    · refine Or.inr (Or.inl ?_)
      rw [hsame]
      exact List.mem_cons_self
    · have hold : other.name ∈ s.startedOnce :=
        (List.mem_cons.mp honce).resolve_left hsame
      rcases h.kept other hother hisKept hold with
        hfailed | hrunning | ⟨attempt, hstarting⟩
      · exact Or.inl hfailed
      · exact Or.inr (Or.inl (List.mem_cons_of_mem _ hrunning))
      · exact absurd (congrArg Service.name (hphase other attempt hstarting))
          hsame

/-- A oneshot of the boot that has been started is waited for. -/
theorem Inv.launchOneshot (hnames : (services.map (·.name)).Nodup)
    (h : s.Inv services) {service : Service} {pid attempt : Nat}
    {rest : List Service} (hphase : s.phase = .starting service attempt (.boot rest))
    (honeshot : service.kind = .oneshot) (hpid : s.children pid = none) :
    Inv services { s with
      phase := .waiting service attempt pid (.boot rest)
      children := put s.children pid (some .alive)
      startedOnce := service.name :: s.startedOnce } := by
  have hfresh := h.pid_notMem hpid
  have hprogress := h.progress
  simp only [Progress, hphase] at hprogress
  obtain ⟨hmem, hkey, ⟨hnodup, hsubset, hnew, hfailed⟩, hdistinct, -⟩ :=
    hprogress
  refine ⟨h.names, h.pids, ?_, ?_, ?_, ?_, ?_⟩
  · intro entry hentry
    show put s.children pid _ entry.2 ≠ none
    rw [put_other (hfresh entry hentry)]
    exact h.alive entry hentry
  · intro entry hentry
    obtain ⟨other, hother, hname, hkind, honce, hnot⟩ := h.daemons entry hentry
    exact ⟨other, hother, hname, hkind, List.mem_cons_of_mem _ honce, hnot⟩
  · intro name hname
    exact List.mem_cons_of_mem _ (h.failed name hname)
  · intro other hother hisKept honce
    rcases List.mem_cons.mp honce with hsame | hold
    · have heq := service_eq_of_name hnames hother hmem hsame
      rw [heq, Service.isKept, honeshot] at hisKept
      cases hisKept.1
    · rcases h.kept other hother hisKept hold with
        hfailed | hrunning | ⟨attempt', hstarting⟩
      · exact Or.inl hfailed
      · exact Or.inr (Or.inl hrunning)
      · rw [hphase] at hstarting
        cases hstarting
  · refine ⟨hmem, hkey, ⟨hnodup, hsubset, ?_, hfailed⟩, hdistinct, honeshot,
      hfresh⟩
    intro other hother
    rw [List.mem_cons, not_or]
    exact ⟨hdistinct other hother, hnew other hother⟩

theorem Inv.spawn (hnames : (services.map (·.name)).Nodup)
    (h : s.Inv services) {answer : Option Nat}
    (hstep : s.step services (.spawn answer) = some t) : t.Inv services := by
  simp only [step] at hstep
  split at hstep
  · rename_i service attempt next hphase
    have hprogress := h.progress
    cases answer with
    | none =>
      obtain rfl := Option.some.inj hstep
      cases next with
      | boot rest =>
        simp only [Progress, hphase] at hprogress
        exact h.move (.booting rest)
          (fun _ _ heq => by rw [hphase] at heq; cases heq) hprogress.2.2.1
      | reap => exact h.fail hphase
    | some pid =>
      rw [spawned] at hstep
      split at hstep
      · rename_i hpid
        cases hkind : service.kind with
        | daemon =>
          simp only [hkind] at hstep
          obtain rfl := Option.some.inj hstep
          have hsame : ∀ other attempt',
              s.phase = .starting other attempt' .reap → other = service := by
            intro other attempt' heq
            rw [hphase] at heq
            exact (InitPhase.starting.inj heq).1.symm
          cases next with
          | boot rest =>
            simp only [Progress, hphase] at hprogress
            obtain ⟨hmem, hkey, ⟨hnodup, hsubset, hnew, hfailed⟩, hdistinct,
              -⟩ := hprogress
            rw [insert_of_notMem hkey]
            refine h.launch hmem hkey hkind (by simp [hfailed]) hpid hsame
              ⟨hnodup, hsubset, ?_, hfailed⟩
            intro other hother
            rw [List.mem_cons, not_or]
            exact ⟨hdistinct other hother, hnew other hother⟩
          | reap =>
            simp only [Progress, hphase] at hprogress
            obtain ⟨hmem, hkey, -, -, hnot⟩ := hprogress
            rw [insert_of_notMem hkey]
            exact h.launch hmem hkey hkind hnot hpid hsame trivial
        | oneshot =>
          simp only [hkind] at hstep
          obtain rfl := Option.some.inj hstep
          cases next with
          | boot rest => exact h.launchOneshot hnames hphase hkind hpid
          | reap =>
            simp only [Progress, hphase] at hprogress
            rw [hkind] at hprogress
            cases hprogress.2.2.1
      · cases hstep
  · cases hstep

theorem Inv.wait {answer : Option Nat} (h : s.Inv services)
    (hstep : s.step services (.wait answer) = some t) : t.Inv services := by
  simp only [step] at hstep
  split at hstep
  · rename_i service attempt pid next hphase
    have hprogress := h.progress
    cases next with
    | reap =>
      simp only [Progress, hphase] at hprogress
    | boot rest =>
      simp only [Progress, hphase] at hprogress
      obtain ⟨hmem, hkey, hfresh, hdistinct, hkind, hpid⟩ := hprogress
      have hmove : ∀ status, Inv services { s with
          phase :=
            if service.retries status attempt then
              .starting service (attempt + 1) (.boot rest)
            else .booting rest } := by
        intro status
        apply h.move _ (fun _ _ heq => by rw [hphase] at heq; cases heq)
        by_cases hretry : service.retries status attempt = true
        · simp only [hretry, if_true]
          exact ⟨hmem, hkey, hfresh, hdistinct,
            fun heq => by rw [hkind] at heq; cases heq⟩
        · simp only [hretry]
          exact hfresh
      cases answer with
      | none =>
        obtain rfl := Option.some.inj hstep
        exact hmove _
      | some status =>
        simp only [waited] at hstep
        split at hstep
        · obtain rfl := Option.some.inj hstep
          apply (hmove status).setChildren
          intro entry hentry
          rw [put_other (hpid entry hentry)]
          exact h.alive entry hentry
        · cases hstep
  · cases hstep

/-- The entry of an exited child is taken out. -/
theorem Inv.reap (hnames : (services.map (·.name)).Nodup) {pid status : Nat}
    (h : s.Inv services) (hphase : s.phase = .reaping)
    (hstep : reap services { s with children := put s.children pid none } pid
      status = some t) : t.Inv services := by
  unfold InitState.reap at hstep
  split at hstep
  · rename_i hnone
    obtain rfl := Option.some.inj hstep
    apply h.setChildren
    intro entry hentry
    have hpid : entry.2 ≠ pid := by
      simpa using List.find?_eq_none.mp hnone entry hentry
    rw [put_other hpid]
    exact h.alive entry hentry
  · rename_i name found hfind
    have hfoundPid : found = pid := by simpa using List.find?_some hfind
    subst hfoundPid
    have hentry : (name, found) ∈ s.running := List.mem_of_find?_eq_some hfind
    obtain ⟨service, hservice, rfl⟩ := Option.map_eq_some_iff.mp hstep
    have hname : service.name = name := by simpa using List.find?_some hservice
    have hmem : service ∈ services := List.mem_of_find?_eq_some hservice
    obtain ⟨other, hother, hsame, hkind, honce, hnot⟩ :=
      h.daemons (name, found) hentry
    obtain rfl := service_eq_of_name hnames hother hmem (hsame.trans hname.symm)
    have hkey : other.name ∉ (remove s.running name).map Prod.fst := by
      rw [hname]
      intro hin
      obtain ⟨entry, hremains, hsame'⟩ := List.mem_map.mp hin
      simpa [hsame'] using (List.mem_filter.mp hremains).2
    refine ⟨?_, ?_, ?_, ?_, h.failed, ?_, ?_⟩
    · exact h.names.sublist (List.Sublist.map _ List.filter_sublist)
    · exact h.pids.sublist (List.Sublist.map _ List.filter_sublist)
    · intro entry hremains
      obtain ⟨hold, hne⟩ := List.mem_filter.mp hremains
      have hpid : entry.2 ≠ found := by
        intro hsamePid
        have heq := List.inj_on_of_nodup_map h.pids hold hentry hsamePid
        rw [heq] at hne
        simp at hne
      show put s.children found none entry.2 ≠ none
      rw [put_other hpid]
      exact h.alive entry hold
    · exact fun entry hremains =>
        h.daemons entry (List.mem_filter.mp hremains).1
    · intro kept hkept hisKept hstarted
      by_cases hthis : kept.name = name
      · have heq := service_eq_of_name hnames hkept hmem
          (hthis.trans hname.symm)
        subst heq
        refine Or.inr (Or.inr ⟨1, ?_⟩)
        have hrestarts : kept.restarts status = true := by
          rw [Service.restarts, hisKept.2]
        simp only [hrestarts, if_true]
      · rcases h.kept kept hkept hisKept hstarted with
          hfailed | hrunning | ⟨attempt, hstarting⟩
        · exact Or.inl hfailed
        · refine Or.inr (Or.inl ?_)
          obtain ⟨entry, hold, hsame'⟩ := List.mem_map.mp hrunning
          refine List.mem_map.mpr ⟨entry, List.mem_filter.mpr ⟨hold, ?_⟩,
            hsame'⟩
          rw [decide_eq_true_iff, hsame']
          exact hthis
        · rw [hphase] at hstarting
          cases hstarting
    · cases hrestarts : other.restarts status with
      | true => exact ⟨hmem, hkey, hkind, honce, hnot⟩
      | false => exact trivial

theorem Inv.step (hnames : (services.map (·.name)).Nodup) {a : InitAction}
    (h : s.Inv services) (hstep : s.step services a = some t) :
    t.Inv services := by
  cases a with
  | boot => exact h.boot hstep
  | spawn answer => exact h.spawn hnames hstep
  | wait answer => exact h.wait hstep
  | poll event => exact h.poll hstep
  | exit pid status => exact h.exit hstep
  | adopt pid child => exact h.adopt hstep
  | reap answer =>
    simp only [InitState.step] at hstep
    split at hstep
    · rename_i hphase
      obtain rfl := Option.some.inj hstep
      exact h.move .head (fun _ _ heq => by rw [hphase] at heq; cases heq)
        trivial
    · rename_i pid status hphase
      split at hstep
      · exact h.reap hnames hphase hstep
      · cases hstep
    · cases hstep

theorem Inv.of_run (hnames : (services.map (·.name)).Nodup)
    (hrun : Run (InitState.step services) Always (start services) s) :
    s.Inv services := by
  apply hrun.invariant (Inv services)
  · intro t a u ht _ hstep
    exact ht.step hnames hstep
  · exact inv_start hnames

/-! ## A service that is dropped -/

/-- The boot is over, the service does not run and is not being started. -/
def Dropped (s : InitState) (name : String) : Prop :=
  name ∉ s.keys ∧
    match s.phase with
    | .starting service _ .reap => service.name ≠ name
    | .head | .reaping | .stopping => True
    | .booting _ | .starting _ _ (.boot _) | .waiting _ _ _ _ => False

theorem Dropped.spawn {name : String} {answer : Option Nat}
    (h : s.Inv services) (hdropped : s.Dropped name)
    (hstep : s.step services (.spawn answer) = some t) : t.Dropped name := by
  obtain ⟨hkey, hphase'⟩ := hdropped
  simp only [step] at hstep
  split at hstep
  · rename_i service attempt next hphase
    have hprogress := h.progress
    cases next with
    | boot rest =>
      simp only [hphase] at hphase'
    | reap =>
      simp only [hphase] at hphase'
      simp only [Progress, hphase] at hprogress
      cases answer with
      | none =>
        obtain rfl := Option.some.inj hstep
        exact ⟨hkey, trivial⟩
      | some pid =>
        rw [spawned] at hstep
        split at hstep
        · simp only [hprogress.2.2.1] at hstep
          obtain rfl := Option.some.inj hstep
          refine ⟨?_, trivial⟩
          show name ∉ (insert s.running service.name pid).map Prod.fst
          rw [insert_of_notMem hprogress.2.1, List.map_cons, List.mem_cons,
            not_or]
          exact ⟨hphase'.symm, hkey⟩
        · cases hstep
  · cases hstep

theorem Dropped.reap {name : String} {answer : Option (Nat × Nat)}
    (hdropped : s.Dropped name)
    (hstep : s.step services (.reap answer) = some t) : t.Dropped name := by
  obtain ⟨hkey, hphase'⟩ := hdropped
  simp only [step] at hstep
  split at hstep
  · obtain rfl := Option.some.inj hstep
    exact ⟨hkey, trivial⟩
  · rename_i pid status hphase
    split at hstep
    · unfold InitState.reap at hstep
      split at hstep
      · obtain rfl := Option.some.inj hstep
        refine ⟨hkey, ?_⟩
        simp only [hphase]
      · rename_i found foundPid hfind
        obtain ⟨service, hservice, rfl⟩ := Option.map_eq_some_iff.mp hstep
        have hentry : (found, foundPid) ∈ s.running :=
          List.mem_of_find?_eq_some hfind
        have hname : service.name = found := by
          simpa using List.find?_some hservice
        refine ⟨fun hin => hkey ?_, ?_⟩
        · exact (List.Sublist.map _ List.filter_sublist).subset hin
        · have hne : service.name ≠ name := by
            rintro rfl
            rw [hname] at hkey
            exact hkey (List.mem_map.mpr ⟨_, hentry, rfl⟩)
          cases hrestarts : service.restarts status with
          | true => exact hne
          | false => exact trivial
    · cases hstep
  · cases hstep

/-- A dropped service stays dropped. -/
theorem Dropped.step {name : String} {a : InitAction} (h : s.Inv services)
    (hdropped : s.Dropped name) (hstep : s.step services a = some t) :
    t.Dropped name := by
  cases a with
  | spawn answer => exact hdropped.spawn h hstep
  | reap answer => exact hdropped.reap hstep
  | boot =>
    simp only [InitState.step] at hstep
    split at hstep
    · rename_i hphase
      simp only [Dropped, hphase, and_false] at hdropped
    · rename_i hphase
      simp only [Dropped, hphase, and_false] at hdropped
    · cases hstep
  | wait answer =>
    simp only [InitState.step] at hstep
    split at hstep
    · rename_i hphase
      simp only [Dropped, hphase, and_false] at hdropped
    · cases hstep
  | poll event =>
    simp only [InitState.step] at hstep
    split at hstep
    · obtain rfl := Option.some.inj hstep
      refine ⟨hdropped.1, ?_⟩
      by_cases hevent : event ≠ 0
      · simp only [if_pos hevent]
      · simp only [if_neg hevent]
    · cases hstep
  | exit pid status =>
    simp only [InitState.step] at hstep
    split at hstep
    · obtain rfl := Option.some.inj hstep
      exact hdropped
    · cases hstep
  | adopt pid child =>
    simp only [InitState.step] at hstep
    split at hstep
    · obtain rfl := Option.some.inj hstep
      exact hdropped
    · cases hstep

theorem Dropped.not_startsAgain (hnames : (services.map (·.name)).Nodup)
    {service : Service} (h : s.Inv services)
    (hdropped : s.Dropped service.name) :
    ¬ StartsAgain services s service := by
  rintro ⟨t, attempt, next, hrun, hphase⟩
  have hend : t.Inv services ∧ t.Dropped service.name := by
    apply hrun.invariant fun u => u.Inv services ∧ u.Dropped service.name
    · intro u a v hu _ hstep
      exact ⟨hu.1.step hnames hstep, hu.2.step hu.1 hstep⟩
    · exact ⟨h, hdropped⟩
  have hplace := hend.2.2
  cases next with
  | boot rest => simp only [hphase] at hplace
  | reap =>
    simp only [hphase] at hplace
    exact hplace rfl

/-- A failed restart of a service that has to be up ends its supervision. -/
theorem Inv.not_supervises (hnames : (services.map (·.name)).Nodup)
    (h : s.Inv services) (hhead : s.phase = .head) {service : Service}
    (hmem : service ∈ services) (hisKept : service.isKept)
    (hfailed : service.name ∈ s.failedRestarts) :
    ¬ Supervises services s := by
  have hkey : service.name ∉ s.keys := by
    intro hin
    obtain ⟨entry, hentry, hname⟩ := List.mem_map.mp hin
    obtain ⟨other, -, hother, -, -, hnot⟩ := h.daemons entry hentry
    rw [hother, hname] at hnot
    exact hnot hfailed
  have hdropped : s.Dropped service.name := ⟨hkey, by simp only [hhead]⟩
  intro hsupervises
  rcases hsupervises.kept service hmem hisKept (h.failed _ hfailed) with
    ⟨pid, hentry, -⟩ | hagain
  · exact hkey (List.mem_map.mpr ⟨_, hentry, rfl⟩)
  · exact hdropped.not_startsAgain hnames h hagain

theorem Inv.supervises (h : s.Inv services) (hhead : s.phase = .head)
    (hnone : ∀ service ∈ services, service.isKept →
      service.name ∉ s.failedRestarts) : Supervises services s := by
  refine ⟨fun service hmem hisKept hstarted => Or.inl ?_, h.pids⟩
  rcases h.kept service hmem hisKept hstarted with
    hfailed | hkey | ⟨attempt, hphase⟩
  · exact absurd hfailed (hnone service hmem hisKept)
  · obtain ⟨entry, hentry, hname⟩ := List.mem_map.mp hkey
    refine ⟨entry.2, ?_, h.alive entry hentry⟩
    rw [← hname]
    exact hentry
  · rw [hhead] at hphase
    cases hphase

end InitState

/-- At the head of the loop of `supervise`, the daemons to be kept up are
supervised exactly if no restart of one of them has failed so far. -/
theorem daemons_supervised {services : List Service} {s : InitState}
    (hnames : (services.map (·.name)).Nodup)
    (hrun : Run (InitState.step services) Always (.start services) s)
    (hhead : s.phase = .head) :
    InitState.Supervises services s ↔
      ∀ service ∈ services, service.isKept →
        service.name ∉ s.failedRestarts := by
  have hinv := InitState.Inv.of_run hnames hrun
  constructor
  · intro hsupervises service hmem hisKept hfailed
    exact hinv.not_supervises hnames hhead hmem hisKept hfailed hsupervises
  · exact hinv.supervises hhead

/-- One console that is always restarted. -/
def consoleTable : List Service :=
  [{ name := "console-tty0"
     dependsOn := []
     kind := .daemon
     restart := .always }]

/-- The boot of that table, an exit of the console, and the answer to the
spawn of its restart. -/
def restartRun (answer : Option Nat) : List InitAction :=
  [.boot, .spawn (some 2), .boot, .poll 0, .exit 2 1, .reap (some (2, 1)),
    .spawn answer, .reap none]

theorem daemons_supervised_restarted :
    ∃ s, s.running = [("console-tty0", 2)] ∧
      InitState.Supervises consoleTable s := by
  have hrun : (exec (InitState.step consoleTable) Always (restartRun (some 2))
      (.start consoleTable)).any (fun s => decide (s.phase = .head ∧
        s.running = [("console-tty0", 2)] ∧ s.failedRestarts = [])) = true := by
    decide +kernel
  obtain ⟨s, hs, hend⟩ := (Option.any_eq_true _ _).mp hrun
  obtain ⟨hhead, hrunning, hfailed⟩ := of_decide_eq_true hend
  refine ⟨s, hrunning, ?_⟩
  rw [daemons_supervised (by decide) (run_of_exec hs) hhead]
  intro service _ _
  rw [hfailed]
  exact List.not_mem_nil

/-- The spawn of the restart fails, and the console is gone for good. -/
theorem daemon_dropped :
    ∃ s, Run (InitState.step consoleTable) Always (.start consoleTable) s ∧
      s.phase = .head ∧ ¬ InitState.Supervises consoleTable s := by
  have hrun : (exec (InitState.step consoleTable) Always (restartRun none)
      (.start consoleTable)).any (fun s => decide (s.phase = .head ∧
        s.failedRestarts = ["console-tty0"])) = true := by
    decide +kernel
  obtain ⟨s, hs, hend⟩ := (Option.any_eq_true _ _).mp hrun
  obtain ⟨hhead, hfailed⟩ := of_decide_eq_true hend
  have hnames : (consoleTable.map (·.name)).Nodup := by decide
  have hinv := InitState.Inv.of_run hnames (run_of_exec hs)
  refine ⟨s, run_of_exec hs, hhead, ?_⟩
  apply hinv.not_supervises hnames hhead (List.mem_singleton.mpr rfl) ⟨rfl, rfl⟩
  rw [hfailed]
  exact List.mem_singleton.mpr rfl

end OpenKernel
