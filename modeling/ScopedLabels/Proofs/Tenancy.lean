import ScopedLabels.Proofs.Leases
import ScopedLabels.Proofs.Tasks

/-!
# Tenancy — leases on a key, begun and ended in any order

A lease that ends takes off whatever is innermost on its key. So with several leases on one key,
ended in any order, a lease may well take off the value of another one. What holds nevertheless is a
count: as long as only leases work on the key, there is one value for each lease that lives, on top
of what the key held before (`Session.Lodges.step`). Hence nothing of that is ever lost, and no
lease finds its key empty.

The leases that begin on a key, with the values that they begin with, are its `Session.Tenant`s,
oldest first. If a lease ends only while it is the newest one on its key, what stands on top of the
start are the values of the tenants in order (`Session.Lodges.step_nested`), and each lease takes
off its own.

Leases that stood on the key before may stand there all along. Whatever else is done may leave the
key alone in any way; requests that work on other keys do (`Session.contents_step`).
-/

namespace ScopedLabels

/-! ## The leases on a key -/

/-- The names of the leases on a key, oldest first. -/
def Lease.holders (home : Lease) (leases : Roster Text Lease) : List Text :=
  ((leases.entries.filter (·.2 = home)).map Prod.fst).reverse

/-- Where a name does not occur, nothing is left out with it. -/
theorem filter_eq_of_not_mem_map {α : Type} {f : α → Text} {as : List α} {name : Text}
    (h : name ∉ as.map f) : as.filter (f · ≠ name) = as := by
  refine List.filter_eq_self.mpr fun a ha => ?_
  rw [decide_eq_true_eq]
  rintro rfl
  exact h (List.mem_map_of_mem ha)

theorem filter_eq_of_not_mem {names : List Text} {name : Text} (h : name ∉ names) :
    names.filter (· ≠ name) = names := by
  rw [← List.map_id names] at h
  exact filter_eq_of_not_mem_map h

section Holders

variable {home : Lease} {leases : Roster Text Lease}

/-- A lease that begins on a key is the newest that is held there. -/
theorem Lease.holders_insert (home : Lease) (leases : Roster Text Lease) (name : Text)
    (lease : Lease) :
    home.holders (leases.insert name lease) =
      home.holders leases ++ if lease = home then [name] else [] := by
  rw [holders, Roster.insert, List.filter_cons]
  by_cases h : lease = home
  · simp [h, holders]
  · simp [h, holders]

/-- A lease that ends is held no longer. -/
theorem Lease.holders_erase (home : Lease) (leases : Roster Text Lease) (name : Text) :
    home.holders (leases.erase name) = (home.holders leases).filter (· ≠ name) := by
  rw [holders, Roster.erase, List.filter_comm, holders, List.filter_reverse, List.filter_map]
  congr 3
  funext entry
  simp [bne, beq_eq_decide]

/-- A name that nothing is held under is not among the names. -/
theorem Roster.not_mem_keys {leases : Roster Text Lease} {name : Text}
    (hfree : leases.get? name = none) : name ∉ leases.keys := by
  intro hmem
  obtain ⟨entry, hentry, rfl⟩ := List.mem_map.mp hmem
  have hnone : leases.entries.find? (fun other => other.1 == entry.1) = none := by
    simpa [get?] using hfree
  exact List.find?_eq_none.mp hnone entry hentry (beq_self_eq_true _)

/-- Where every name is held once, a lookup finds what the name is held with. -/
theorem Lease.mem_holders_iff (hdistinct : leases.keys.Nodup) {name : Text} :
    name ∈ home.holders leases ↔ leases.get? name = some home := by
  have hholders : name ∈ home.holders leases ↔ (name, home) ∈ leases.entries := by
    simp [holders]
  rw [hholders]
  refine ⟨fun hmem => ?_, Roster.mem_of_get?⟩
  cases hlease : leases.get? name with
  | none => exact absurd (List.mem_map_of_mem hmem) (Roster.not_mem_keys hlease)
  | some lease =>
      have hfound : (name, lease) ∈ leases.entries := Roster.mem_of_get? hlease
      have hsame := List.inj_on_of_nodup_map hdistinct hmem hfound rfl
      exact congrArg some (congrArg Prod.snd hsame).symm

end Holders

namespace Session

/-- A request begins a lease under a name of its own, or ends a lease that is held, or does nothing
    about leases. -/
theorem leases_cases (s : Session) (request : Request) :
    (∃ name stack key datum, request = .newLease name stack key datum ∧
      s.leases.get? name = none ∧
      (s.step request).2.leases = s.leases.insert name ⟨stack, key⟩ ∧
      (s.step request).2.world =
        s.drained.world.modifyStack stack (·.push key (Datum.value datum))) ∨
    (∃ name lease, request = .dropLease name ∧ s.leases.get? name = some lease ∧
      (s.step request).2.leases = s.leases.erase name ∧
      (s.step request).2.world = after lease.finish s.drained.world) ∨
    ((s.step request).2.leases = s.leases ∧
      (∀ name, request = .dropLease name → s.leases.get? name = none) ∧
      ∀ name stack key datum, request = .newLease name stack key datum →
        s.leases.contains name = true ∧ (s.step request).2 = s.drained) := by
  by_cases hleases : Aspect.leases ∉ request.touched
  · refine .inr (.inr ⟨?_, ?_, ?_⟩)
    · rw [step_eq_after]
      exact (perform_keeps request hleases s.drained).2 rfl
    · rintro name rfl
      exact absurd (by simp [Request.touched]) hleases
    · rintro name stack key datum rfl
      exact absurd (by simp [Request.touched]) hleases
  · cases request with
    | newLease name stack key datum =>
        cases hcontains : s.leases.contains name with
        | true =>
            have hsame := step_newLease_used hcontains stack key datum
            refine .inr (.inr ⟨by rw [hsame]; rfl, ?_, ?_⟩)
            · rintro _ ⟨⟩
            · rintro _ _ _ _ ⟨⟩
              exact ⟨hcontains, hsame⟩
        | false =>
            rw [step_newLease hcontains]
            rw [Roster.contains, Option.isSome_eq_false_iff, Option.isNone_iff_eq_none] at hcontains
            exact .inl ⟨name, stack, key, datum, rfl, hcontains, rfl, rfl⟩
    | dropLease name =>
        cases hlease : s.leases.get? name with
        | none =>
            refine .inr (.inr ⟨by rw [step_dropLease_none hlease]; rfl, ?_, ?_⟩)
            · rintro _ ⟨⟩
              exact hlease
            · rintro _ _ _ _ ⟨⟩
        | some lease =>
            rw [step_dropLease hlease]
            exact .inr (.inl ⟨name, lease, rfl, hlease, rfl, rfl⟩)
    | makeLabel name location save =>
        exact absurd (leases_not_mem_touchedByLabel name location) hleases
    | _ => simp [Request.touched] at hleases

/-- No name is held by two leases. -/
theorem distinct_step {s : Session} (h : s.leases.keys.Nodup) (request : Request) :
    (s.step request).2.leases.keys.Nodup := by
  obtain ⟨name, stack, key, datum, -, hfree, hleases, -⟩ | ⟨name, lease, -, -, hleases, -⟩ |
    ⟨hleases, -, -⟩ := s.leases_cases request
  · rw [hleases]
    exact List.nodup_cons.mpr ⟨Roster.not_mem_keys hfree, h⟩
  · rw [hleases]
    exact (List.filter_sublist.map Prod.fst).nodup h
  · rw [hleases]
    exact h

theorem distinct_steps {s : Session} (h : s.leases.keys.Nodup) (requests : List Request) :
    (s.steps requests).2.leases.keys.Nodup := by
  induction requests generalizing s with
  | nil => exact h
  | cons request rest ih => exact ih (distinct_step h request)

/-! ## Tenants -/

/-- A lease that has begun and not ended: the name that it is held under, and the value that it
    began with. -/
abbrev Tenant := Text × Value

/-- The tenants of a key after a request, oldest first. -/
def tenantsAfter (s : Session) (home : Lease) (tenants : List Tenant) : Request → List Tenant
  | .newLease name stack key datum =>
    if s.leases.contains name = false ∧ (⟨stack, key⟩ : Lease) = home then
      tenants ++ [(name, Datum.value datum)]
    else tenants
  | .dropLease name => tenants.filter (·.1 ≠ name)
  | _ => tenants

/-- The tenants of a key after requests. -/
def tenants (s : Session) (home : Lease) (begun : List Tenant) : List Request → List Tenant
  | [] => begun
  | request :: rest =>
    (s.step request).2.tenants home (s.tenantsAfter home begun request) rest

/-- Does a request begin or end a lease on a key? -/
def IsLeasing (s : Session) (home : Lease) : Request → Prop
  | .newLease _ stack key _ => (⟨stack, key⟩ : Lease) = home
  | .dropLease name => s.leases.get? name = some home
  | _ => False

/-- Whatever requests do, they leave a key to the leases that begin on it, and end none of the
    leases that stand there from before. -/
def LeavesToLeases (s : Session) (home : Lease) (standing : List Text) : List Request → Prop
  | [] => True
  | request :: rest =>
    (∀ name ∈ standing, request ≠ .dropLease name) ∧
      (s.IsLeasing home request ∨ home.Spared s.world (s.step request).2.world) ∧
      (s.step request).2.LeavesToLeases home standing rest

/-- Whenever a lease on a key ends, it is the newest one there. -/
def EndsNewest (s : Session) (home : Lease) : List Request → Prop
  | [] => True
  | request :: rest =>
    (∀ name, request = .dropLease name → s.leases.get? name = some home →
      (home.holders s.leases).getLast? = some name) ∧
      (s.step request).2.EndsNewest home rest

/-- The leases on a key are those that stand there from before and the tenants. -/
structure Houses (home : Lease) (standing : List Text) (tenants : List Tenant) (s : Session) :
    Prop where
  names : home.holders s.leases = standing ++ tenants.map Prod.fst
  distinct : s.leases.keys.Nodup

namespace Houses

variable {home : Lease} {standing : List Text} {tenants : List Tenant} {s : Session}
  (h : Houses home standing tenants s)
include h

/-- No tenant has the name of another one, or of a lease from before. -/
theorem nodup : (standing ++ tenants.map Prod.fst).Nodup := by
  rw [← h.names, Lease.holders, List.nodup_reverse]
  exact (List.filter_sublist.map Prod.fst).nodup h.distinct

/-- On a key, a name stands there from before or is that of a tenant just if its lease is held
    there. -/
theorem mem_iff {name : Text} :
    name ∈ standing ++ tenants.map Prod.fst ↔ s.leases.get? name = some home := by
  rw [← h.names, Lease.mem_holders_iff h.distinct]

/-- A lease that is held and did not stand there from before belongs to a tenant. -/
theorem mem_of_held {name : Text} (hheld : s.leases.get? name = some home)
    (hnew : name ∉ standing) : name ∈ tenants.map Prod.fst :=
  (List.mem_append.mp (h.mem_iff.mpr hheld)).resolve_left hnew

/-- Nobody moves out under the name of no tenant. -/
theorem filter_eq {name : Text} (hno : s.leases.get? name ≠ some home) :
    tenants.filter (·.1 ≠ name) = tenants :=
  filter_eq_of_not_mem_map fun hmem => hno (h.mem_iff.mp (List.mem_append_right standing hmem))

/-- A tenant moves out, and the others stay. -/
theorem split {name : Text} (hmem : name ∈ tenants.map Prod.fst) :
    ∃ front value back, tenants = front ++ (name, value) :: back ∧
      tenants.filter (·.1 ≠ name) = front ++ back := by
  obtain ⟨⟨name, value⟩, htenant, rfl⟩ := List.mem_map.mp hmem
  obtain ⟨front, back, rfl⟩ := List.append_of_mem htenant
  refine ⟨front, value, back, rfl, ?_⟩
  have hnodup := (List.nodup_append.mp h.nodup).2.1
  rw [List.map_append, List.map_cons, List.nodup_append, List.nodup_cons] at hnodup
  obtain ⟨-, ⟨hback, -⟩, hfront⟩ := hnodup
  rw [List.filter_append, List.filter_cons_of_neg (by simp), filter_eq_of_not_mem_map hback,
    filter_eq_of_not_mem_map fun hmem => hfront name hmem name List.mem_cons_self rfl]

/-- What a request is about on a key that is left to leases: a lease begins, a tenant ends its
    lease, or neither. -/
theorem step_cases {request : Request} (hstanding : ∀ name ∈ standing, request ≠ .dropLease name)
    (hleft : s.IsLeasing home request ∨ home.Spared s.world (s.step request).2.world) :
    (∃ name value, s.tenantsAfter home tenants request = tenants ++ [(name, value)] ∧
      home.holders (s.step request).2.leases = home.holders s.leases ++ [name] ∧
      home.contents (s.step request).2.world = home.contents s.world ++ [value]) ∨
    (∃ front name value back, request = .dropLease name ∧ s.leases.get? name = some home ∧
      tenants = front ++ (name, value) :: back ∧
      s.tenantsAfter home tenants request = front ++ back ∧
      home.holders (s.step request).2.leases =
        (home.holders s.leases).filter (· ≠ name) ∧
      (s.step request).2.world = after home.finish s.drained.world) ∨
    (s.tenantsAfter home tenants request = tenants ∧
      home.holders (s.step request).2.leases = home.holders s.leases ∧
      home.Spared s.world (s.step request).2.world) := by
  -- each way for leases to change is about this key or about another one
  obtain ⟨name, stack, key, datum, rfl, hfree, hleases, hworld⟩ |
    ⟨name, lease, rfl, hheld, hleases, hworld⟩ | ⟨hleases, hdrop, hnew⟩ := s.leases_cases request
  · by_cases hhome : (⟨stack, key⟩ : Lease) = home
    · refine .inl ⟨name, Datum.value datum, ?_, ?_, ?_⟩
      · have hcontains : s.leases.contains name = false := by rw [Roster.contains, hfree]; rfl
        exact if_pos ⟨hcontains, hhome⟩
      · rw [hleases, Lease.holders_insert, if_pos hhome]
      · subst hhome
        rw [hworld]
        exact Lease.contents_started _ (Datum.value datum) s.drained.world
    · refine .inr (.inr ⟨if_neg fun hboth => hhome hboth.2, ?_, hleft.resolve_left hhome⟩)
      rw [hleases, Lease.holders_insert, if_neg hhome, List.append_nil]
  · by_cases hhome : lease = home
    · subst hhome
      have hnew : name ∉ standing := fun hmem => hstanding name hmem rfl
      obtain ⟨front, value, back, hsplit, hfilter⟩ := h.split (h.mem_of_held hheld hnew)
      exact .inr (.inl ⟨front, name, value, back, rfl, hheld, hsplit, hfilter,
        hleases ▸ lease.holders_erase s.leases name, hworld⟩)
    · have hno : s.leases.get? name ≠ some home := by
        rw [hheld]
        intro heq
        exact hhome (Option.some.inj heq)
      refine .inr (.inr ⟨h.filter_eq hno, ?_, hleft.resolve_left hno⟩)
      rw [hleases, Lease.holders_erase]
      exact filter_eq_of_not_mem fun hmem => hno ((Lease.mem_holders_iff h.distinct).mp hmem)
  · refine .inr (.inr ⟨?_, congrArg home.holders hleases, ?_⟩)
    · cases request with
      | newLease name stack key datum =>
          refine if_neg fun hboth => ?_
          rw [(hnew name stack key datum rfl).1] at hboth
          exact absurd hboth.1 (by simp)
      | dropLease name =>
          refine h.filter_eq ?_
          rw [hdrop name rfl]
          exact (Option.some_ne_none home).symm
      | _ => rfl
    · refine hleft.elim (fun hleasing => ?_) id
      cases request with
      | newLease name stack key datum =>
          rw [(hnew name stack key datum rfl).2]
          exact spared_drained home s
      | dropLease name => exact absurd (hleasing.symm.trans (hdrop name rfl)) (by simp)
      | _ => exact hleasing.elim

/-- Every step keeps house. -/
theorem step {request : Request} (hstanding : ∀ name ∈ standing, request ≠ .dropLease name)
    (hleft : s.IsLeasing home request ∨ home.Spared s.world (s.step request).2.world) :
    Houses home standing (s.tenantsAfter home tenants request) (s.step request).2 where
  distinct := distinct_step h.distinct request
  names := by
    obtain ⟨name, value, htenants, hholders, -⟩ |
      ⟨front, name, value, back, rfl, -, hsplit, htenants, hholders, -⟩ |
      ⟨htenants, hholders, -⟩ := h.step_cases hstanding hleft
    · rw [hholders, htenants, h.names, List.map_append, List.append_assoc]
      rfl
    · have hstay : standing.filter (· ≠ name) = standing :=
        filter_eq_of_not_mem fun hmem => hstanding name hmem rfl
      rw [hholders, h.names, List.filter_append, hstay, List.filter_map]
      rfl
    · rw [hholders, htenants, h.names]

end Houses

/-- Every tenant has one value on the key, on top of what it held at first. -/
structure Lodges (home : Lease) (standing : List Text) (base : List Value)
    (tenants : List Tenant) (s : Session) : Prop extends Houses home standing tenants s where
  filled : ∃ values, home.contents s.world = base ++ values ∧ values.length = tenants.length

section Runs

variable {home : Lease} {standing : List Text} {base : List Value} {tenants : List Tenant}
  {s : Session}

/-- The values of the tenants stand on top of what the key held at first. -/
theorem Lodges.exists_top (h : Lodges home standing base tenants s) (hsome : tenants ≠ []) :
    ∃ others last, home.contents s.world = (base ++ others) ++ [last] ∧
      others.length + 1 = tenants.length := by
  obtain ⟨values, hcontents, hlength⟩ := h.filled
  obtain rfl | ⟨others, last, rfl⟩ := List.eq_nil_or_concat' values
  · exact absurd (List.eq_nil_of_length_eq_zero hlength.symm) hsome
  · refine ⟨others, last, ?_, ?_⟩
    · rw [hcontents, List.append_assoc]
    · rw [← hlength, List.length_append, List.length_singleton]

/-- Which tenant goes is not what counts: one value goes with each tenant that goes. -/
theorem Lodges.step (h : Lodges home standing base tenants s) {request : Request}
    (hstanding : ∀ name ∈ standing, request ≠ .dropLease name)
    (hleft : s.IsLeasing home request ∨ home.Spared s.world (s.step request).2.world) :
    Lodges home standing base (s.tenantsAfter home tenants request) (s.step request).2 where
  toHouses := h.toHouses.step hstanding hleft
  filled := by
    obtain ⟨values, hcontents, hlength⟩ := h.filled
    obtain ⟨name, value, htenants, -, hpushed⟩ |
      ⟨front, name, value, back, -, -, hsplit, htenants, -, hworld⟩ |
      ⟨htenants, -, hspared⟩ := h.toHouses.step_cases hstanding hleft
    · refine ⟨values ++ [value], ?_, ?_⟩
      · rw [hpushed, hcontents, List.append_assoc]
      · rw [htenants, List.length_append, List.length_append, hlength]
        rfl
    · have hsome : tenants ≠ [] :=
        hsplit ▸ List.append_ne_nil_of_right_ne_nil front (List.cons_ne_nil _ _)
      obtain ⟨others, last, htop, hcount⟩ := h.exists_top hsome
      have hdrained : home.contents s.drained.world = (base ++ others) ++ [last] := htop
      refine ⟨others, ?_, ?_⟩
      · rw [hworld]
        exact (Lease.finish_own hdrained).2.1
      · rw [htenants, List.length_append]
        rw [hsplit, List.length_append, List.length_cons] at hcount
        exact Nat.succ.inj hcount
    · exact ⟨values, hspared.trans hcontents, hlength.trans (congrArg List.length htenants.symm)⟩

/-- A tenant finds a value to take off, and has nothing to report. -/
theorem Lodges.finishes (h : Lodges home standing base tenants s) {name : Text}
    (hmem : name ∈ tenants.map Prod.fst) :
    (s.step (.dropLease name)).1.result = .ok .nothing ∧
      (s.step (.dropLease name)).2.world.log.written = [] := by
  have hheld := h.mem_iff.mp (List.mem_append_right standing hmem)
  have hsome : tenants ≠ [] := by
    rintro rfl
    exact absurd hmem List.not_mem_nil
  obtain ⟨others, last, htop, -⟩ := h.exists_top hsome
  have hdrained : home.contents s.drained.world = (base ++ others) ++ [last] := htop
  rw [step_dropLease hheld]
  exact ⟨rfl, congrArg Log.written (Lease.finish_own hdrained).2.2⟩

/-- The newest lease on the key is the last of the tenants. -/
theorem Houses.eq_nil_of_newest {front back : List Tenant} {name : Text} {value : Value}
    (h : Houses home standing (front ++ (name, value) :: back) s)
    (hnewest : (home.holders s.leases).getLast? = some name) : back = [] := by
  obtain rfl | ⟨others, ⟨last, lastValue⟩, rfl⟩ := List.eq_nil_or_concat' back
  · rfl
  · have hnames : home.holders s.leases =
        (standing ++ front.map Prod.fst ++ name :: others.map Prod.fst) ++ [last] := by
      rw [h.names]
      simp
    have hnodup : (home.holders s.leases).Nodup := h.names ▸ h.nodup
    rw [hnames, List.getLast?_concat, Option.some.injEq] at hnewest
    rw [hnames, List.nodup_append] at hnodup
    refine absurd hnewest.symm (hnodup.2.2 name ?_ last List.mem_cons_self)
    exact List.mem_append_right _ List.mem_cons_self

/-- While leases end newest first, each tenant has its own value on the key, in order. -/
theorem Houses.step_nested (h : Houses home standing tenants s)
    (hcontents : home.contents s.world = base ++ tenants.map Prod.snd) {request : Request}
    (hstanding : ∀ name ∈ standing, request ≠ .dropLease name)
    (hleft : s.IsLeasing home request ∨ home.Spared s.world (s.step request).2.world)
    (hnewest : ∀ name, request = .dropLease name → s.leases.get? name = some home →
      (home.holders s.leases).getLast? = some name) :
    home.contents (s.step request).2.world =
      base ++ (s.tenantsAfter home tenants request).map Prod.snd := by
  obtain ⟨name, value, htenants, -, hpushed⟩ |
    ⟨front, name, value, back, hrequest, hheld, rfl, htenants, -, hworld⟩ |
    ⟨htenants, -, hspared⟩ := h.step_cases hstanding hleft
  · rw [hpushed, hcontents, htenants, List.map_append, List.append_assoc]
    rfl
  · obtain rfl := h.eq_nil_of_newest (hnewest name hrequest hheld)
    have htop : home.contents s.drained.world = (base ++ front.map Prod.snd) ++ [value] := by
      rw [List.map_append, ← List.append_assoc] at hcontents
      exact hcontents
    rw [hworld, htenants, List.append_nil]
    exact (Lease.finish_own htop).2.1
  · rw [htenants]
    exact hspared.trans hcontents

/-- A key that is left to leases has a value for each of them, whatever the order of their ends. -/
theorem Lodges.steps (h : Lodges home standing base tenants s) {requests : List Request}
    (hleft : s.LeavesToLeases home standing requests) :
    Lodges home standing base (s.tenants home tenants requests) (s.steps requests).2 := by
  induction requests generalizing s tenants with
  | nil => exact h
  | cons request rest ih =>
      obtain ⟨hstanding, hrequest, hrest⟩ := hleft
      exact ih (h.step hstanding hrequest) hrest

/-- A key whose leases end newest first has the values of the leases on it, in order. -/
theorem Houses.steps_nested (h : Houses home standing tenants s)
    (hcontents : home.contents s.world = base ++ tenants.map Prod.snd) {requests : List Request}
    (hleft : s.LeavesToLeases home standing requests) (hnewest : s.EndsNewest home requests) :
    home.contents (s.steps requests).2.world =
      base ++ (s.tenants home tenants requests).map Prod.snd := by
  induction requests generalizing s tenants with
  | nil => exact hcontents
  | cons request rest ih =>
      obtain ⟨hstanding, hrequest, hrest⟩ := hleft
      obtain ⟨hfirst, hothers⟩ := hnewest
      exact ih (h.step hstanding hrequest) (h.step_nested hcontents hstanding hrequest hfirst)
        hrest hothers

end Runs

/-! ## Keys that are left to leases -/

/-- Whatever happened before: as long as a key is left to the leases that begin on it, it holds what
    it held at first, and on top of that one value for each of them that lives. Every one of them
    finds a value to take off when it ends, and logs nothing. If they end newest first, as blocks
    do that may also be left by an error, the values are their own, oldest first, and each takes off
    its own. -/
theorem leases_keep_key (before : List Request) (home : Lease) :
    let s := (Session.steps {} before).2
    let standing := home.holders s.leases
    let base := home.contents s.world
    (∀ request, ¬ s.WorksOn home request → home.Spared s.world (s.step request).2.world) ∧
    (∀ requests, s.LeavesToLeases home standing requests →
      let t := (s.steps requests).2
      let tenants := s.tenants home [] requests
      home.holders t.leases = standing ++ tenants.map Prod.fst ∧
      (∃ values, home.contents t.world = base ++ values ∧ values.length = tenants.length) ∧
      (tenants = [] → home.contents t.world = base) ∧
      (∀ name ∈ tenants.map Prod.fst,
        (t.step (.dropLease name)).1.result = .ok .nothing ∧
        (t.step (.dropLease name)).2.world.log.written = []) ∧
      (s.EndsNewest home requests →
        home.contents t.world = base ++ tenants.map Prod.snd ∧
        ∀ front name value, tenants = front ++ [(name, value)] →
          home.contents (t.step (.dropLease name)).2.world = base ++ front.map Prod.snd)) ∧
    ∀ {α : Type} (body : Action α), home.Blocks body → ∀ (value : Value) (w : World),
      ∃ inside, after body (w.modifyStack home.stack (·.push home.key value)) = inside ∧
        home.contents inside = home.contents w ++ [value] ∧
        after (home.during value body) w = inside.modifyStack home.stack (·.dropTop home.key) ∧
        home.contents (after (home.during value body) w) = home.contents w := by
  intro s standing base
  -- at the start there are no tenants, and the invariant is carried from there
  have hstart : Lodges home standing base [] s :=
    { names := (List.append_nil standing).symm
      distinct := @distinct_steps {} List.nodup_nil before
      filled := ⟨[], (List.append_nil base).symm, rfl⟩ }
  refine ⟨fun _ => contents_step, ?run, fun _ hblocks => hblocks.during_apply⟩
  case run =>
    intro requests hleft t tenants
    have hend : Lodges home standing base tenants t := hstart.steps hleft
    refine ⟨hend.names, hend.filled, ?none, fun _ => hend.finishes, ?nested⟩
    case none =>
      intro hnone
      obtain ⟨values, hcontents, hlength⟩ := hend.filled
      rw [hnone] at hlength
      rw [hcontents, List.eq_nil_of_length_eq_zero hlength, List.append_nil]
    case nested =>
      intro hnewest
      have hcontents : home.contents t.world = base ++ tenants.map Prod.snd :=
        hstart.toHouses.steps_nested (List.append_nil base).symm hleft hnewest
      refine ⟨hcontents, fun front name value hsplit => ?_⟩
      have hheld : t.leases.get? name = some home := by
        refine hend.mem_iff.mp (List.mem_append_right standing ?_)
        rw [hsplit]
        simp
      have htop : home.contents t.drained.world = (base ++ front.map Prod.snd) ++ [value] := by
        show home.contents t.world = _
        rw [hcontents, hsplit, List.map_append, ← List.append_assoc]
        rfl
      rw [step_dropLease hheld]
      exact (Lease.finish_own htop).2.1

/-- Two leases on a key, and one on another key. -/
def begunRequests : List Request :=
  [.newLease "a" "s" "k" (some (.text "A")), .newLease "b" "s" "k" (some (.text "B")),
    .newLease "c" "s" "other" none]

/-- On a key that already holds a number: if the first lease ends first, it takes off the value of
    the second one, which finds the value of the first one to take off. If the second lease ends
    first, it takes off its own. -/
theorem leases_keep_key_overlapping :
    let home : Lease := ⟨"s", "k"⟩
    let s := (Session.steps {} [.push "s" "k" (some (.int 1))]).2
    let crossing := begunRequests ++ [.dropLease "a"]
    let nested := begunRequests ++ [.dropLease "b"]
    s.LeavesToLeases home (home.holders s.leases) crossing ∧
      s.LeavesToLeases home (home.holders s.leases) nested ∧ s.EndsNewest home nested ∧
      home.contents (s.steps crossing).2.world = [.int 1, .text "A"] ∧
      ((s.steps crossing).2.step (.dropLease "b")).2.world.log.written = [] ∧
      home.contents (s.steps nested).2.world = [.int 1, .text "A"] := by
  intro home s crossing nested
  obtain ⟨-, hruns, -⟩ := leases_keep_key [.push "s" "k" (some (.int 1))] home
  have hnobody : home.holders s.leases = [] := by decide +kernel
  have hother : ∀ m : Session, ¬ m.WorksOn home (.newLease "c" "s" "other" none) := by
    intro m
    simp only [WorksOn, Request.direct, Request.touched]
    decide +kernel
  have hleft : ∀ name, ((s.steps begunRequests).2.leases.get? name = some home) →
      s.LeavesToLeases home (home.holders s.leases) (begunRequests ++ [.dropLease name]) := by
    intro name hheld
    have hnone : ∀ {request : Request}, ∀ name ∈ ([] : List Text), request ≠ .dropLease name := by
      rintro _ _ ⟨⟩
    rw [hnobody]
    exact ⟨hnone, .inl rfl, hnone, .inl rfl, hnone, .inr (contents_step (hother _)), hnone,
      .inl hheld, ⟨⟩⟩
  have hcrossing := hleft "a" (by decide +kernel)
  have hnested := hleft "b" (by decide +kernel)
  have hnewest : s.EndsNewest home nested := by
    refine ⟨?_, ?_, ?_, ?_, ⟨⟩⟩
    iterate 3 rintro _ ⟨⟩
    rintro _ ⟨⟩ -
    decide +kernel
  have htenant : (Text.ofString "b") ∈ (s.tenants home [] crossing).map Prod.fst := by
    decide +kernel
  obtain ⟨-, -, -, hfinishes, -⟩ := hruns crossing hcrossing
  obtain ⟨hcontents, -⟩ := (hruns nested hnested).2.2.2.2 hnewest
  refine ⟨hcrossing, hnested, hnewest, by decide +kernel, (hfinishes "b" htenant).2, ?_⟩
  rw [hcontents]
  decide +kernel

end Session

end ScopedLabels
