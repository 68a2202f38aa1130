/-!
# Journals

A component runs in a monad that it knows only by what it can do there. Here that monad is a state
of surroundings which answer in any way they like, and every deed is written down. The journal of a
run is then a list, about which theorems can speak.
-/

namespace ChainFeed

structure Journal.Page (δ σ α : Type) where
  result : α
  deeds : List δ
  after : σ

/-- A computation in surroundings of type `σ` that writes down deeds of type `δ`. -/
structure Journal (δ σ α : Type) where
  run : σ → Journal.Page δ σ α

namespace Journal

variable {δ σ α β : Type}

instance : Monad (Journal δ σ) where
  pure a := ⟨fun s => ⟨a, [], s⟩⟩
  bind x f := ⟨fun s =>
    let first := x.run s
    let second := (f first.result).run first.after
    ⟨second.result, first.deeds ++ second.deeds, second.after⟩⟩

@[simp] theorem run_pure (a : α) (s : σ) : (pure a : Journal δ σ α).run s = ⟨a, [], s⟩ := rfl

@[simp] theorem run_bind (x : Journal δ σ α) (f : α → Journal δ σ β) (s : σ) :
    (x >>= f).run s = ⟨((f (x.run s).result).run (x.run s).after).result,
      (x.run s).deeds ++ ((f (x.run s).result).run (x.run s).after).deeds,
      ((f (x.run s).result).run (x.run s).after).after⟩ := rfl

def watch (name : α → δ) (x : StateM σ α) : Journal δ σ α :=
  ⟨fun s => ⟨(x s).1, [name (x s).1], (x s).2⟩⟩

def quiet (x : StateM σ α) : Journal δ σ α := ⟨fun s => ⟨(x s).1, [], (x s).2⟩⟩

@[simp] theorem run_watch (name : α → δ) (x : StateM σ α) (s : σ) :
    (watch name x).run s = ⟨(x s).1, [name (x s).1], (x s).2⟩ := rfl

def relabel {δ' : Type} (name : δ → δ') (x : Journal δ σ α) : Journal δ' σ α :=
  ⟨fun s => ⟨(x.run s).result, (x.run s).deeds.map name, (x.run s).after⟩⟩

section

variable {δ' : Type} (rename : δ → δ')

@[simp] theorem run_relabel (x : Journal δ σ α) (s : σ) :
    (x.relabel rename).run s = ⟨(x.run s).result, (x.run s).deeds.map rename, (x.run s).after⟩ := rfl

theorem relabel_bind (x : Journal δ σ α) (f : α → Journal δ σ β) :
    (x >>= f).relabel rename = x.relabel rename >>= fun a => (f a).relabel rename := by
  change Journal.mk _ = Journal.mk _
  simp

end

/-- Whatever the surroundings answer, only such deeds are written down. -/
def Only (P : δ → Prop) (x : Journal δ σ α) : Prop := ∀ s, ∀ d ∈ (x.run s).deeds, P d

variable {P : δ → Prop}

theorem only_pure (a : α) : Only P (pure a : Journal δ σ α) := fun s d hd => by simp at hd

theorem Only.bind {x : Journal δ σ α} {f : α → Journal δ σ β} (hx : Only P x) (hf : ∀ a, Only P (f a)) :
    Only P (x >>= f) := by
  intro s d hd
  rw [run_bind] at hd
  rcases List.mem_append.mp hd with hd | hd
  · exact hx s d hd
  · exact hf _ _ d hd

theorem only_watch {name : α → δ} {x : StateM σ α} (h : ∀ s, P (name (x s).1)) : Only P (watch name x) := by
  intro s d hd
  rw [run_watch, List.mem_singleton] at hd
  exact hd ▸ h s

variable {ε : Type} {x : ExceptT ε (Journal δ σ) α} {f : α → ExceptT ε (Journal δ σ) β} {s s₁ s₂ : σ}
  {first second : List δ}

theorem run_bind_ok {a : α} {b : Except ε β} (hx : x.run.run s = ⟨.ok a, first, s₁⟩)
    (hf : (f a).run.run s₁ = ⟨b, second, s₂⟩) : (x >>= f).run.run s = ⟨b, first ++ second, s₂⟩ := by
  simp only [ExceptT.run_bind, run_bind, hx, hf]

theorem run_bind_error {e : ε} (hx : x.run.run s = ⟨.error e, first, s₁⟩) :
    (x >>= f).run.run s = ⟨.error e, first, s₁⟩ := by
  simp only [ExceptT.run_bind, run_bind, hx, run_pure, List.append_nil]

variable {found : Except ε α}

theorem run_bind_mk (hx : x.run.run s = ⟨found, first, s₁⟩) (g : α → Except ε β) :
    (x >>= fun a => .mk (pure (g a))).run.run s = ⟨found.bind g, first, s₁⟩ := by
  cases found with
  | error e => exact run_bind_error hx
  | ok a =>
    rw [← List.append_nil first]
    exact run_bind_ok hx rfl

theorem run_bind_pure (hx : x.run.run s = ⟨found, first, s₁⟩) (g : α → β) :
    (x >>= fun a => pure (g a)).run.run s = ⟨found.map g, first, s₁⟩ := by
  have hread := run_bind_mk hx fun a => .ok (g a)
  cases found <;> exact hread

end Journal

end ChainFeed
