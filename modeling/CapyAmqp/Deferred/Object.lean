import CapyAmqp.Deferred.Lifetime

/-!
# Object — a `Deferred` that others hold, from its construction to its end

A fetcher or a listener is a `Deferred` behind an owner.  Whatever the owners do, the object goes
through registrations and reports, invokes the handlers that these invoke, and is destroyed at most
once, as the last thing that happens to it (`Lives`).  Pieces of a life can be put together
(`Lives.trans`), and a whole one is a `Deferred.lifetime` (`Lives.lifetime`).
-/

namespace CapyAmqp

variable {Op H P : Type}

def DeferredCall.registration? : DeferredCall H P → Option (Registration H)
  | .register r => some r
  | .report _ => none

def DeferredCall.report? : DeferredCall H P → Option (Report P)
  | .register _ => none
  | .report r => some r

def Registration.onFinalize? : Registration H → Option H
  | .onFinalize callback => some callback
  | _ => none

/-- The finalize handler that is registered last. -/
def lastFinalize (rs : List (Registration H)) : Option H :=
  rs.reverse.findSome? Registration.onFinalize?

namespace ObjectAction

def report? : ObjectAction Op H P → Option (Report P)
  | .report r _ => some r
  | _ => none

end ObjectAction

namespace Deferred

/-- The actions of an object that sees the calls `cs` and is not destroyed; `rs` are the
registrations among the calls. -/
structure Serves (d : Deferred H P) (rs : List (Registration H)) (cs : List (DeferredCall H P))
    (as : List (ObjectAction Op H P)) : Prop where
  registrations : cs.filterMap DeferredCall.registration? = rs
  reports : cs.filterMap DeferredCall.report? = as.filterMap ObjectAction.report?
  invoked : handlerCalls as = d.invokedBy cs
  alive : ∀ a ∈ as, a.isDestroyed = false

/-- From `v` to `v'`, where `none` stands for an object that is not there, the object takes the
registrations `rs` and acts `as`. -/
def Lives : Option (Deferred H P) → List (Registration H) → List (ObjectAction Op H P) →
    Option (Deferred H P) → Prop
  | none, rs, as, v' => rs = [] ∧ as = [] ∧ v' = none
  | some d, rs, as, some d' => ∃ cs, d.Serves rs cs as ∧ d' = d.after cs
  | some d, rs, as, none =>
      ∃ cs bs, d.Serves rs cs bs ∧ as = bs ++ [.destroyed (d.after cs).destroy]

/-! ## Pieces of a life -/

theorem after_append (d : Deferred H P) (cs ds : List (DeferredCall H P)) :
    d.after (cs ++ ds) = (d.after cs).after ds := by
  simp [after]

theorem invokedBy_append (d : Deferred H P) (cs ds : List (DeferredCall H P)) :
    d.invokedBy (cs ++ ds) = d.invokedBy cs ++ (d.after cs).invokedBy ds := by
  induction cs generalizing d with
  | nil => rfl
  | cons c cs ih =>
      have htail : (d.call c).invokedBy (cs ++ ds) =
          (d.call c).invokedBy cs ++ ((d.call c).after cs).invokedBy ds := ih (d.call c)
      calc
        d.invokedBy (c :: cs ++ ds) = d.invoked c ++ (d.call c).invokedBy (cs ++ ds) := rfl
        _ = d.invoked c ++ (d.call c).invokedBy cs ++ ((d.call c).after cs).invokedBy ds := by
              rw [htail, List.append_assoc]

theorem serves_nil (d : Deferred H P) : d.Serves [] [] ([] : List (ObjectAction Op H P)) :=
  ⟨rfl, rfl, rfl, by simp⟩

theorem Serves.append {d : Deferred H P} {rs ss : List (Registration H)}
    {cs ds : List (DeferredCall H P)} {as bs : List (ObjectAction Op H P)}
    (h : d.Serves rs cs as) (h' : (d.after cs).Serves ss ds bs) :
    d.Serves (rs ++ ss) (cs ++ ds) (as ++ bs) := by
  refine ⟨?_, ?_, ?_, ?_⟩
  · rw [List.filterMap_append, h.registrations, h'.registrations]
  · rw [List.filterMap_append, List.filterMap_append, h.reports, h'.reports]
  · have hcalls : handlerCalls (as ++ bs) = handlerCalls as ++ handlerCalls bs :=
      List.flatMap_append
    rw [hcalls, h.invoked, h'.invoked, invokedBy_append]
  · intro a ha
    rcases List.mem_append.1 ha with ha | ha
    · exact h.alive a ha
    · exact h'.alive a ha

theorem Lives.refl (v : Option (Deferred H P)) : Lives v [] ([] : List (ObjectAction Op H P)) v := by
  cases v with
  | none => exact ⟨rfl, rfl, rfl⟩
  | some d => exact ⟨[], serves_nil d, rfl⟩

theorem Lives.trans {v v' v'' : Option (Deferred H P)} {rs ss : List (Registration H)}
    {as bs : List (ObjectAction Op H P)} (h : Lives v rs as v') (h' : Lives v' ss bs v'') :
    Lives v (rs ++ ss) (as ++ bs) v'' := by
  cases v with
  | none =>
      rcases h with ⟨rfl, rfl, rfl⟩
      exact h'
  | some d =>
      cases v' with
      | none =>
          -- the object has ended, and nothing comes after that
          rcases h' with ⟨rfl, rfl, rfl⟩
          rw [List.append_nil, List.append_nil]
          exact h
      | some d' =>
          rcases h with ⟨cs, hserves, rfl⟩
          cases v'' with
          | none =>
              rcases h' with ⟨ds, bs, hserves', rfl⟩
              refine ⟨cs ++ ds, as ++ bs, hserves.append hserves', ?_⟩
              rw [after_append, List.append_assoc]
          | some d'' =>
              rcases h' with ⟨ds, hserves', rfl⟩
              exact ⟨cs ++ ds, hserves.append hserves', (after_append d cs ds).symm⟩

/-! ## What owners do to an object -/

section Pieces

variable (d : Deferred H P)

theorem lives_report (r : Report P) :
    Lives (some d) [] [(.report r (d.report r).2 : ObjectAction Op H P)] (some (d.report r).1) :=
  ⟨[.report r], ⟨rfl, rfl, rfl, by simp [ObjectAction.isDestroyed]⟩, rfl⟩

theorem lives_register (r : Registration H) :
    Lives (some d) [r] ([] : List (ObjectAction Op H P)) (some (d.register r)) :=
  ⟨[.register r], ⟨rfl, rfl, rfl, by simp⟩, rfl⟩

/-- Operations on the channel of the object. -/
theorem lives_channel (ops : List Op) :
    Lives (some d) [] (ops.map fun op => (.channel op : ObjectAction Op H P)) (some d) := by
  refine ⟨[], ⟨rfl, ?_, ?_, ?_⟩, rfl⟩
  · simp [ObjectAction.report?, List.filterMap_map, Function.comp_def]
  · simp [handlerCalls, List.flatMap_map, ObjectAction.calls, invokedBy]
  · intro a ha
    rcases List.mem_map.1 ha with ⟨op, _, rfl⟩
    rfl

theorem lives_destroy :
    Lives (some d) [] [(.destroyed d.destroy : ObjectAction Op H P)] none :=
  ⟨[], [], serves_nil d, rfl⟩

end Pieces

/-! ## A whole life -/

/-- Reading the registrations of the calls, or the calls themselves. -/
theorem lastOnFinalize_eq (cs : List (DeferredCall H P)) :
    lastOnFinalize cs = lastFinalize (cs.filterMap DeferredCall.registration?) := by
  have hcall : (fun c : DeferredCall H P => c.registration?.bind Registration.onFinalize?) =
      DeferredCall.onFinalize? := by
    funext c
    cases c with
    | register r => cases r <;> rfl
    | report r => rfl
  rw [lastFinalize, lastOnFinalize, ← List.filterMap_reverse, ← List.head?_filterMap,
    ← List.head?_filterMap, List.filterMap_filterMap, hcall]

/-- The handler calls of an object that was constructed with `error` and has been destroyed, after
the registrations `rs`: what is invoked is a `lifetime`, in which the finalize handler comes once and
last, and the object is not touched after its end. -/
structure EndsOnce (error : Error) (failed : Bool) (rs : List (Registration H))
    (as : List (ObjectAction Op H P)) : Prop where
  lifetime : ∃ cs : List (DeferredCall H P),
    cs.filterMap DeferredCall.registration? = rs ∧
      cs.filterMap DeferredCall.report? = as.filterMap ObjectAction.report? ∧
      handlerCalls as = lifetime error failed cs
  finalize : ∃ others, handlerCalls as = others ++ (lastFinalize rs).toList.map .finalize ∧
    ∀ x ∈ others, x.isFinalize = false
  last : ∃ bs calls, as = bs ++ [.destroyed calls] ∧ ∀ a ∈ bs, a.isDestroyed = false

theorem Lives.endsOnce {error : Error} {failed : Bool} {rs : List (Registration H)}
    {as : List (ObjectAction Op H P)} (h : Lives (some (construct error failed)) rs as none) :
    EndsOnce error failed rs as := by
  rcases h with ⟨cs, bs, hserves, rfl⟩
  have hcalls : handlerCalls (bs ++ [.destroyed ((construct error failed).after cs).destroy]) =
      lifetime error failed cs := by
    have hend : handlerCalls (bs ++ [.destroyed ((construct error failed).after cs).destroy]) =
        handlerCalls bs ++ ((construct error failed).after cs).destroy := by
      simp [handlerCalls, ObjectAction.calls]
    rw [hend, hserves.invoked]
    rfl
  constructor
  case lifetime =>
    refine ⟨cs, hserves.registrations, ?_, hcalls⟩
    rw [hserves.reports]
    simp [ObjectAction.report?]
  case finalize =>
    refine ⟨(construct error failed).invokedBy cs ++
      (constructionError error cs).map (fun entry => .error entry.1 entry.2), ?_, ?_⟩
    · rw [hcalls, lifetime, destroy_after, lastOnFinalize_eq, hserves.registrations,
        List.append_assoc]
    · intro x hx
      rcases List.mem_append.1 hx with hx | hx
      · exact isFinalize_of_mem_invokedBy _ cs hx
      · rcases List.mem_map.1 hx with ⟨entry, _, rfl⟩
        rfl
  case last =>
    exact ⟨bs, _, rfl, hserves.alive⟩

/-- A live object has not been destroyed. -/
theorem Lives.alive {d : Deferred H P} {v : Option (Deferred H P)} {rs : List (Registration H)}
    {as : List (ObjectAction Op H P)} (h : Lives v rs as (some d)) {a : ObjectAction Op H P}
    (ha : a ∈ as) : a.isDestroyed = false := by
  cases v with
  | none =>
      rcases h with ⟨_, _, hnone⟩
      cases hnone
  | some d₀ =>
      rcases h with ⟨cs, hserves, _⟩
      exact hserves.alive a ha

end Deferred

end CapyAmqp
