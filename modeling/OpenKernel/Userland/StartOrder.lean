import OpenKernel.Lib.Dependencies
import OpenKernel.Userland.Supervisor

/-!
# Start and shutdown order

`start_order` visits the service table again and again and takes the services
whose dependencies have been taken.  It comes to a stop when a pass takes
none: the services taken by then are the grounded ones, those that reach only
declared services and no cycle, and the others follow in declared order
(`start_order_sorts`).  `shutdown_sequence` walks the same order backwards.
-/

namespace OpenKernel

open Lib Relation

/-- `name` is a service with this dependency. -/
def DependsOn (services : List Service) (name dependency : String) : Prop :=
  ∃ service ∈ services, service.name = name ∧ dependency ∈ service.dependsOn

def Declared (services : List Service) (name : String) : Prop :=
  name ∈ services.map (·.name)

/-- The transitive dependencies of the service are all declared and
acyclic. -/
def Service.Resolvable (services : List Service) (service : Service) : Prop :=
  Grounded (DependsOn services) (Declared services) service.name

/-- `service` depends on `other`, directly or through other services. -/
def Service.Needs (services : List Service) (service other : Service) : Prop :=
  TransGen (DependsOn services) service.name other.name

/-- The outer loop of `start_order` returns this order from here. -/
inductive StartOrder.Returns (services : List Service) : StartOrder → List Service → Prop
  | complete {o : StartOrder} (hall : ¬ o.order.length < services.length) :
      Returns services o o.order
  | progressed {o : StartOrder} {order : List Service} (hmore : o.order.length < services.length)
      (hprogressed : o.order.length < (o.pass services).order.length)
      (hreturns : Returns services (o.pass services) order) : Returns services o order
  | unresolved {o : StartOrder} (hmore : o.order.length < services.length)
      (hstuck : ¬ o.order.length < (o.pass services).order.length) :
      Returns services o ((o.pass services).order ++ services.filter fun service =>
        service.name ∉ (o.pass services).started)

/-- `shutdown_sequence`: the services that it stops, with their pids.  The
order that it walks is that of `start_order`, backwards. -/
def stopServices : List Service → List (String × Nat) → List (Service × Nat)
  | [], _ => []
  | service :: rest, running =>
    match running.find? (·.1 == service.name) with
    | none => stopServices rest running
    | some (_, pid) => (service, pid) :: stopServices rest (InitState.remove running service.name)

def shutdownSequence (services : List Service) (running : List (String × Nat)) :
    List (Service × Nat) :=
  stopServices (startOrder services).reverse running

/-! ## The passes -/

namespace StartOrder

variable {services : List Service} {o : StartOrder} {service : Service}

/-- Every service in the order comes after its dependencies. -/
def Sorted (o : StartOrder) : Prop :=
  ∀ service ∈ o.order, ∀ dependency ∈ service.dependsOn,
    ∃ other, other.name = dependency ∧ Precedes o.order other service

theorem visit_cases (o : StartOrder) (service : Service) :
    (o.visit service = o ∧ (service.name ∈ o.started ∨
      ∃ dependency ∈ service.dependsOn, dependency ∉ o.started)) ∨
    ((∀ dependency ∈ service.dependsOn, dependency ∈ o.started) ∧
      o.visit service =
        { started := o.started ++ [service.name], order := o.order ++ [service] }) := by
  unfold visit
  by_cases hstarted : service.name ∈ o.started
  · rw [if_pos hstarted]
    exact .inl ⟨rfl, .inl hstarted⟩
  · rw [if_neg hstarted]
    by_cases hall : ∀ dependency ∈ service.dependsOn, dependency ∈ o.started
    · rw [if_pos hall]
      exact .inr ⟨hall, rfl⟩
    · rw [if_neg hall]
      simp only [not_forall] at hall
      obtain ⟨dependency, hmem, hnot⟩ := hall
      exact .inl ⟨rfl, .inr ⟨dependency, hmem, hnot⟩⟩

theorem Sorted.visit (h : o.Sorted) (hnames : o.Names services) : (o.visit service).Sorted := by
  rcases visit_cases o service with ⟨hsame, -⟩ | ⟨hall, hnew⟩
  · rw [hsame]
    exact h
  · rw [hnew]
    intro other hother dependency hdependency
    rcases List.mem_append.mp hother with hold | hlast
    · obtain ⟨before, hname, hprecedes⟩ := h other hold dependency hdependency
      exact ⟨before, hname, hprecedes.append_right _⟩
    · obtain rfl := List.mem_singleton.mp hlast
      have hstarted := hall dependency hdependency
      rw [← hnames.started] at hstarted
      obtain ⟨before, hbefore, hname⟩ := List.mem_map.mp hstarted
      exact ⟨before, hname, Precedes.append hbefore (List.mem_singleton_self _)⟩

theorem Sorted.pass (h : o.Sorted) (hnames : o.Names services) : (o.pass services).Sorted := by
  have hall : ∀ (visited : List Service) (o : StartOrder),
      (∀ service ∈ visited, service ∈ services) → o.Names services → o.Sorted →
      (visited.foldl StartOrder.visit o).Sorted := by
    intro visited
    induction visited with
    | nil => exact fun o _ _ ho => ho
    | cons service visited ih =>
      intro o hvisited hnames ho
      exact ih _ (fun other hother => hvisited other (by simp [hother]))
        (hnames.visit (hvisited service (by simp))) (ho.visit hnames)
  exact hall services o (fun _ hmem => hmem) hnames h

theorem length_foldl_visit (visited : List Service) (o : StartOrder) :
    o.order.length ≤ (visited.foldl StartOrder.visit o).order.length := by
  induction visited generalizing o with
  | nil => exact Nat.le_refl _
  | cons service visited ih =>
    refine Nat.le_trans ?_ (ih (o.visit service))
    rcases visit_cases o service with ⟨hsame, -⟩ | ⟨-, hnew⟩
    · rw [hsame]
    · rw [hnew, List.length_append]
      exact Nat.le_add_right _ _

/-- A pass that takes no service has found each one taken or short of a
dependency. -/
theorem foldl_stuck {visited : List Service}
    (h : ¬ o.order.length < (visited.foldl StartOrder.visit o).order.length) :
    visited.foldl StartOrder.visit o = o ∧ ∀ service ∈ visited, service.name ∈ o.started ∨
      ∃ dependency ∈ service.dependsOn, dependency ∉ o.started := by
  induction visited with
  | nil => exact ⟨rfl, fun _ hmem => nomatch hmem⟩
  | cons service visited ih =>
    rw [List.foldl_cons] at h ⊢
    rcases visit_cases o service with ⟨hsame, hwhy⟩ | ⟨-, hnew⟩
    · rw [hsame] at h ⊢
      obtain ⟨heq, hall⟩ := ih h
      refine ⟨heq, fun other hother => ?_⟩
      rcases List.mem_cons.mp hother with rfl | hmem
      · exact hwhy
      · exact hall other hmem
    · have hle := length_foldl_visit visited (o.visit service)
      rw [hnew, List.length_append, List.length_singleton] at hle
      rw [hnew] at h
      omega

/-- The fuel is enough for the loop to return. -/
theorem returns_loop (fuel : Nat) (h : services.length ≤ o.order.length + fuel) :
    Returns services o (loop services fuel o) := by
  induction fuel generalizing o with
  | zero => exact .complete (by omega)
  | succ fuel ih =>
    rw [loop]
    split
    · rename_i hmore
      dsimp only
      split
      · rename_i hprogressed
        exact .progressed hmore hprogressed (ih (by omega))
      · rename_i hstuck
        exact .unresolved hmore hstuck
    · rename_i hall
      exact .complete hall

/-! ## What has been taken -/

theorem Names.nodup_order (hnames : o.Names services) : o.order.Nodup := by
  have hnodup := hnames.nodup
  rw [← hnames.started] at hnodup
  exact hnodup.of_map _

theorem Names.mem_order (hnames : o.Names services) (hservices : (services.map (·.name)).Nodup)
    (hmem : service ∈ services) (hstarted : service.name ∈ o.started) : service ∈ o.order := by
  rw [← hnames.started] at hstarted
  obtain ⟨same, hsame, hname⟩ := List.mem_map.mp hstarted
  obtain rfl : same = service :=
    List.inj_on_of_nodup_map hservices (hnames.subset same hsame) hmem hname
  exact hsame

theorem Sorted.direct (h : o.Sorted) (hnames : o.Names services)
    (hservices : (services.map (·.name)).Nodup) (hmem : service ∈ o.order) {dependency : String}
    (hdepends : DependsOn services service.name dependency) :
    ∃ other, other.name = dependency ∧ Precedes o.order other service := by
  obtain ⟨same, hsame, hname, hdependency⟩ := hdepends
  obtain rfl : same = service :=
    List.inj_on_of_nodup_map hservices hsame (hnames.subset service hmem) hname
  exact h same hmem dependency hdependency

/-- A service comes after all that it needs. -/
theorem Sorted.needs (h : o.Sorted) (hnames : o.Names services)
    (hservices : (services.map (·.name)).Nodup) (hmem : service ∈ o.order) {name : String}
    (hneeds : TransGen (DependsOn services) service.name name) :
    ∃ other, other.name = name ∧ Precedes o.order other service := by
  induction hneeds with
  | single hdepends => exact h.direct hnames hservices hmem hdepends
  | tail _ hdepends ih =>
    obtain ⟨middle, rfl, hmiddle⟩ := ih
    obtain ⟨other, hother, hprecedes⟩ := h.direct hnames hservices hmiddle.left_mem hdepends
    exact ⟨other, hother, hprecedes.trans hnames.nodup_order hmiddle⟩

/-- Services that have been taken are grounded. -/
theorem Sorted.resolvable (h : o.Sorted) (hnames : o.Names services)
    (hservices : (services.map (·.name)).Nodup) (hmem : service ∈ o.order) :
    service.Resolvable services := by
  intro name hreaches
  have hreached : ∃ other ∈ o.order, other.name = name := by
    rcases reflTransGen_iff_eq_or_transGen.mp hreaches with heq | hneeds
    · exact ⟨service, hmem, heq.symm⟩
    · obtain ⟨other, hother, hprecedes⟩ := h.needs hnames hservices hmem hneeds
      exact ⟨other, hprecedes.left_mem, hother⟩
  obtain ⟨other, hother, rfl⟩ := hreached
  refine ⟨List.mem_map.mpr ⟨other, hnames.subset other hother, rfl⟩, fun hcycle => ?_⟩
  obtain ⟨same, hname, hprecedes⟩ := h.needs hnames hservices hother hcycle
  obtain rfl : same = other := List.inj_on_of_nodup_map hservices
    (hnames.subset same hprecedes.left_mem) (hnames.subset other hother) hname
  exact Precedes.irrefl hnames.nodup_order hprecedes

/-- No further pass takes a service. -/
def Exhausted (services : List Service) (o : StartOrder) : Prop :=
  ∀ service ∈ services, service.name ∈ o.started ∨
    ∃ dependency ∈ service.dependsOn, dependency ∉ o.started

/-- When no service can be taken any more, the grounded ones have been. -/
theorem Exhausted.started (hexhausted : o.Exhausted services) (h : service.Resolvable services) :
    service.name ∈ o.started := by
  have hfinite : Set.Finite {name | Declared services name} := List.finite_toSet _
  refine Grounded.induction hfinite ?_ h
  intro name hgrounded ih
  obtain ⟨same, hsame, rfl⟩ := List.mem_map.mp hgrounded.declared_self
  rcases hexhausted same hsame with hstarted | ⟨dependency, hdependency, hnot⟩
  · exact hstarted
  · exact absurd (ih dependency ⟨same, hsame, rfl, hdependency⟩) hnot

/-- A complete order has taken every service. -/
theorem Names.complete (hnames : o.Names services)
    (hall : ¬ o.order.length < services.length) (hmem : service ∈ services) :
    service.name ∈ o.started := by
  have hsub : o.order.Subperm services :=
    List.subperm_of_subset hnames.nodup_order fun other hother => hnames.subset other hother
  have hperm := hsub.perm_of_length_le (Nat.le_of_not_lt hall)
  rw [← hnames.started]
  exact List.mem_map_of_mem (hperm.mem_iff.mpr hmem)

/-- What the loop returns: the services that the passes have taken, and then
the rest. -/
theorem Returns.spec {order : List Service} (h : Returns services o order)
    (hnames : o.Names services) (hsorted : o.Sorted) :
    ∃ last : StartOrder, last.Names services ∧ last.Sorted ∧ last.Exhausted services ∧
      order = last.order ++ services.filter fun service => service.name ∉ last.started := by
  induction h with
  | @complete o hall =>
    have hstarted : ∀ service ∈ services, service.name ∈ o.started :=
      fun service hmem => hnames.complete hall hmem
    refine ⟨o, hnames, hsorted, fun service hmem => .inl (hstarted service hmem), ?_⟩
    have hnone : services.filter (fun service => service.name ∉ o.started) = [] := by
      rw [List.filter_eq_nil_iff]
      intro service hmem
      simp [hstarted service hmem]
    rw [hnone, List.append_nil]
  | progressed hmore hprogressed hreturns ih => exact ih hnames.pass (hsorted.pass hnames)
  | @unresolved o hmore hstuck =>
    obtain ⟨hsame, hexhausted⟩ := foldl_stuck hstuck
    have hpass : o.pass services = o := hsame
    rw [hpass]
    exact ⟨o, hnames, hsorted, hexhausted, rfl⟩

end StartOrder

/-! ## The start order -/

/-- Every service is there once, after all that it needs if that can be had at
all; the services for which it cannot come last, in declared order. -/
structure StartsInOrder (services order : List Service) : Prop where
  returns : StartOrder.Returns services { started := [], order := [] } order
  once : order.Perm services
  sorted : ∀ service ∈ services, service.Resolvable services →
    ∀ other ∈ services, service.Needs services other → Precedes order other service
  fallback : ∃ resolved rest, order = resolved ++ rest ∧
    (∀ service ∈ resolved, service.Resolvable services) ∧
    (∀ service ∈ rest, ¬ service.Resolvable services) ∧ rest.Sublist services

theorem startsInOrder {services : List Service} (hservices : (services.map (·.name)).Nodup) :
    StartsInOrder services (startOrder services) := by
  have hreturns : StartOrder.Returns services { started := [], order := [] }
      (startOrder services) := StartOrder.returns_loop _ (by simp)
  obtain ⟨last, hnames, hsorted, hexhausted, horder⟩ := hreturns.spec
    ⟨rfl, List.nodup_nil, fun _ hmem => nomatch hmem⟩ fun _ hmem => nomatch hmem
  obtain ⟨hnodup, hsubset⟩ := startOrder_spec hservices
  refine ⟨hreturns, ?_, ?_, ?_⟩
  · refine (List.perm_ext_iff_of_nodup (hnodup.of_map _) (hservices.of_map _)).mpr fun service =>
      ⟨hsubset service, fun hmem => ?_⟩
    rw [horder, List.mem_append, List.mem_filter]
    by_cases hstarted : service.name ∈ last.started
    · exact .inl (hnames.mem_order hservices hmem hstarted)
    · exact .inr ⟨hmem, by simp [hstarted]⟩
  · intro service hmem hresolvable other hother hneeds
    have htaken := hnames.mem_order hservices hmem (hexhausted.started hresolvable)
    obtain ⟨same, hname, hprecedes⟩ := hsorted.needs hnames hservices htaken hneeds
    obtain rfl : same = other := List.inj_on_of_nodup_map hservices
      (hnames.subset same hprecedes.left_mem) hother hname
    rw [horder]
    exact hprecedes.append_right _
  · refine ⟨_, _, horder, fun service hmem => hsorted.resolvable hnames hservices hmem,
      fun service hmem hresolvable => ?_, List.filter_sublist⟩
    have hnot := (List.mem_filter.mp hmem).2
    simp [hexhausted.started hresolvable] at hnot

/-! ## Shutdown -/

/-- What `shutdown_sequence` stops, and in which order. -/
structure StopsInOrder (services : List Service) (running : List (String × Nat))
    (stopped : List (Service × Nat)) : Prop where
  running : ∀ service pid, (service, pid) ∈ stopped ↔ service ∈ services ∧
    running.find? (·.1 == service.name) = some (service.name, pid)
  sorted : ∀ service ∈ services, service.Resolvable services →
    ∀ other ∈ services, service.Needs services other →
      ∀ pid other_pid, (service, pid) ∈ stopped → (other, other_pid) ∈ stopped →
        Precedes stopped (service, pid) (other, other_pid)

/-- The entry of a service in `running`. -/
def runningEntry (running : List (String × Nat)) (service : Service) : Option (Service × Nat) :=
  (running.find? (·.1 == service.name)).map fun entry => (service, entry.2)

theorem find_remove {running : List (String × Nat)} {name other : String} (h : other ≠ name) :
    (InitState.remove running name).find? (·.1 == other) = running.find? (·.1 == other) := by
  unfold InitState.remove
  induction running with
  | nil => rfl
  | cons entry running ih =>
    by_cases hentry : entry.1 = name
    · rw [List.filter_cons_of_neg (by simp [hentry]), ih, List.find?_cons_of_neg]
      simpa [hentry] using fun heq => h heq.symm
    · rw [List.filter_cons_of_pos (by simp [hentry])]
      by_cases hother : entry.1 = other
      · rw [List.find?_cons_of_pos (by simp [hother]), List.find?_cons_of_pos (by simp [hother])]
      · rw [List.find?_cons_of_neg (by simp [hother]), List.find?_cons_of_neg (by simp [hother]),
          ih]

/-- The removals do not matter: no name comes up twice. -/
theorem stopServices_eq {order : List Service} (hnodup : (order.map (·.name)).Nodup)
    (running : List (String × Nat)) :
    stopServices order running = order.filterMap (runningEntry running) := by
  induction order generalizing running with
  | nil => rfl
  | cons service rest ih =>
    obtain ⟨hnew, hrest⟩ := List.nodup_cons.mp hnodup
    rw [stopServices]
    cases hfind : running.find? (·.1 == service.name) with
    | none =>
      have hentry : runningEntry running service = none := by rw [runningEntry, hfind]; rfl
      rw [List.filterMap_cons_none hentry]
      exact ih hrest running
    | some entry =>
      have hentry : runningEntry running service = some (service, entry.2) := by
        rw [runningEntry, hfind]
        rfl
      rw [List.filterMap_cons_some hentry]
      have hsame : rest.filterMap (runningEntry (InitState.remove running service.name)) =
          rest.filterMap (runningEntry running) := by
        refine List.filterMap_congr fun other hother => ?_
        have hne : other.name ≠ service.name := fun heq =>
          hnew (List.mem_map.mpr ⟨other, hother, heq⟩)
        rw [runningEntry, find_remove hne]
        rfl
      show (service, entry.2) :: stopServices rest _ = _
      rw [ih hrest, hsame]

theorem stopsInOrder {services : List Service} (hservices : (services.map (·.name)).Nodup)
    (running : List (String × Nat)) :
    StopsInOrder services running (shutdownSequence services running) := by
  have horder := startsInOrder hservices
  have hnodup : ((startOrder services).reverse.map (·.name)).Nodup := by
    rw [List.map_reverse, List.nodup_reverse]
    exact (startOrder_spec hservices).1
  have heq : shutdownSequence services running =
      (startOrder services).reverse.filterMap (runningEntry running) :=
    stopServices_eq hnodup running
  have hfound : ∀ service pid, (service, pid) ∈ shutdownSequence services running ↔
      service ∈ services ∧ runningEntry running service = some (service, pid) := by
    intro service pid
    rw [heq, List.mem_filterMap]
    constructor
    · rintro ⟨same, hmem, hentry⟩
      obtain ⟨entry, -, hpair⟩ := Option.map_eq_some_iff.mp hentry
      obtain ⟨rfl, -⟩ := Prod.mk.inj hpair
      rw [List.mem_reverse, horder.once.mem_iff] at hmem
      exact ⟨hmem, hentry⟩
    · rintro ⟨hmem, hentry⟩
      rw [← horder.once.mem_iff, ← List.mem_reverse] at hmem
      exact ⟨service, hmem, hentry⟩
  constructor
  · intro service pid
    rw [hfound, runningEntry, Option.map_eq_some_iff]
    refine and_congr_right fun _ => ⟨?_, fun hfind => ⟨_, hfind, rfl⟩⟩
    rintro ⟨⟨name, pid'⟩, hfind, hpair⟩
    obtain ⟨-, rfl⟩ := Prod.mk.inj hpair
    have hname : name = service.name := by simpa using List.find?_some hfind
    rw [hfind, hname]
  · intro service hmem hresolvable other hother hneeds pid other_pid hstopped hother_stopped
    rw [heq]
    exact (horder.sorted service hmem hresolvable other hother hneeds).reverse.filterMap
      ((hfound _ _).mp hstopped).2 ((hfound _ _).mp hother_stopped).2

/-- `start_order` sorts every table of services, and `shutdown_sequence` stops
what runs in the opposite order. -/
theorem start_order_sorts {services : List Service} (hservices : (services.map (·.name)).Nodup) :
    StartsInOrder services (startOrder services) ∧
      ∀ running, StopsInOrder services running (shutdownSequence services running) :=
  ⟨startsInOrder hservices, stopsInOrder hservices⟩

/-- A table with a cycle, a missing name and two services that can be had. -/
def tangledServices : List Service :=
  [⟨"web", ["net", "net"], .daemon, .always⟩, ⟨"loop", ["loop"], .daemon, .always⟩,
    ⟨"late", ["web", "ghost"], .daemon, .never⟩, ⟨"net", [], .oneshot, .onFailure⟩]

theorem start_order_sorts_tangled :
    (startOrder tangledServices).map (·.name) = ["net", "web", "loop", "late"] ∧
      StartsInOrder tangledServices (startOrder tangledServices) :=
  ⟨by decide, (start_order_sorts (by decide)).1⟩

end OpenKernel
