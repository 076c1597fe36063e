/-! A lock and the threads inside the sections it guards: whoever is inside one owns the lock,
and, where no thread goes out without giving it back, whoever owns it is inside. `H t` says
that thread `t` is inside. -/

namespace Mutex

universe u

variable {τ : Type u}

def Exclusive (lock : Option τ) (H : τ → Prop) : Prop := ∀ t, H t → lock = some t

variable {lock : Option τ} {H H' : τ → Prop}

theorem Exclusive.unique (h : Exclusive lock H) {t u : τ} (ht : H t) (hu : H u) : t = u :=
  Option.some.inj ((h t ht).symm.trans (h u hu))

/-- Nobody is inside a section whose lock is free. -/
theorem Exclusive.free (h : Exclusive none H) (t : τ) : ¬H t :=
  fun ht => absurd (h t ht) (Option.some_ne_none t).symm

/-- Nobody enters. -/
theorem Exclusive.keep (h : Exclusive lock H) (hH : ∀ u, H' u → H u) : Exclusive lock H' :=
  fun u hu => h u (hH u hu)

/-- A thread that finds the lock free takes it and goes in. -/
theorem Exclusive.acquire {t : τ} (h : Exclusive none H) (hH : ∀ u, u ≠ t → H' u → H u) :
    Exclusive (some t) H' := by
  intro u hu
  by_cases hut : u = t
  · rw [hut]
  · exact absurd (hH u hut hu) (h.free u)

/-- The thread inside goes out and gives the lock back. -/
theorem Exclusive.release {t : τ} (h : Exclusive lock H) (ht : H t) (hout : ¬H' t)
    (hH : ∀ u, u ≠ t → H' u → H u) : Exclusive none H' := by
  intro u hu
  by_cases hut : u = t
  · exact absurd (hut ▸ hu) hout
  · exact absurd (h.unique (hH u hut hu) ht) hut

def Held (lock : Option τ) (H : τ → Prop) : Prop := ∀ t, lock = some t → H t

theorem held_none : Held none H := fun _ ht => absurd ht.symm (Option.some_ne_none _)

theorem held_some {t : τ} (ht : H t) : Held (some t) H := fun _ hu => Option.some.inj hu ▸ ht

/-- Nobody goes out. -/
theorem Held.keep (h : Held lock H) (hH : ∀ u, H u → H' u) : Held lock H' :=
  fun u hu => hH u (h u hu)

theorem Held.free (h : Held lock H) (hnobody : ∀ u, ¬H u) : lock = none := by
  cases hlock : lock with
  | none => rfl
  | some u => exact absurd (h u hlock) (hnobody u)

end Mutex
