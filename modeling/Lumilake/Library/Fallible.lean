import Mathlib.Data.List.Basic
import Mathlib.Data.List.Forall2

-- Computations that stop at their first error.
namespace Fallible
variable {ε : Type u} {α β : Type v}

theorem bind_ok {x : Except ε α} {f : α → Except ε β} (done : (x >>= f) = .ok b) :
    ∃ a, x = .ok a ∧ f a = .ok b := by
  cases x with
  | error e => cases done
  | ok a => exact ⟨a,rfl,done⟩

theorem map_ok {x : Except ε α} {f : α → β} (done : x.map f = .ok b) : ∃ a, x = .ok a ∧ f a = b := by
  cases x with
  | error e => cases done
  | ok a => cases done; exact ⟨a,rfl,rfl⟩

def failure : Except ε α → Option ε
  | .error e => some e
  | .ok _ => none

theorem failure_eq_some {x : Except ε α} {e : ε} : failure x = some e ↔ x = .error e := by cases x <;> simp [failure]

theorem failure_eq_none {x : Except ε α} : failure x = none ↔ ∃ a, x = .ok a := by cases x <;> simp [failure]

theorem ok_of_toOption {x : Except ε α} (some_a : x.toOption = some a) : x = .ok a := by
  cases x with
  | error e => cases some_a
  | ok b => exact congrArg Except.ok (Option.some.inj some_a)

theorem ok_bind (a : α) (f : α → Except ε β) : (Except.ok a >>= f) = f a := rfl

-- `mapM` returns when every turn does, with what the turns return.
theorem mapM_ok {f : γ → Except ε β} {cs : List γ} {out : List β} :
    cs.mapM f = .ok out ↔ List.Forall₂ (fun c b => f c = .ok b) cs out := by
  induction cs generalizing out with
  | nil =>
      rw [List.forall₂_nil_left_iff]
      exact ⟨fun done => by cases done; rfl,fun empty => empty ▸ rfl⟩
  | cons c rest ih =>
      rw [List.mapM_cons]
      constructor
      · intro done
        obtain ⟨b,first,done⟩ := bind_ok done
        obtain ⟨bs,later,done⟩ := bind_ok done
        cases done
        exact .cons first (ih.mp later)
      · intro all
        cases all with
        | cons first later =>
            rw [first,ok_bind,ih.mpr later]
            rfl

theorem mapM_total {f : γ → Except ε β} (cs : List γ) (each : ∀ c ∈ cs, ∃ b, f c = .ok b) : ∃ out, cs.mapM f = .ok out := by
  induction cs with
  | nil => exact ⟨[],rfl⟩
  | cons c rest ih =>
      obtain ⟨⟨b,first⟩,others⟩ := List.forall_mem_cons.mp each
      obtain ⟨out,later⟩ := ih others
      exact ⟨b :: out,mapM_ok.mpr (.cons first (mapM_ok.mp later))⟩

-- Each of two lists that are related one by one holds what is related to the other's.
theorem forall₂_left {R : γ → δ → Prop} {cs : List γ} {ds : List δ} (all : List.Forall₂ R cs ds) (member : c ∈ cs) :
    ∃ d ∈ ds, R c d := by
  induction all with
  | nil => cases member
  | cons first _ ih =>
      rcases List.mem_cons.mp member with rfl | later
      · exact ⟨_,List.mem_cons_self,first⟩
      · obtain ⟨d,there,related⟩ := ih later
        exact ⟨d,List.mem_cons_of_mem _ there,related⟩

theorem forall₂_right {R : γ → δ → Prop} {cs : List γ} {ds : List δ} (all : List.Forall₂ R cs ds) (member : d ∈ ds) :
    ∃ c ∈ cs, R c d := forall₂_left all.flip member

-- A loop of checks passes when every check does.
theorem forM_ok {f : γ → Except ε PUnit} (cs : List γ) : cs.forM f = .ok ⟨⟩ ↔ ∀ c ∈ cs, f c = .ok ⟨⟩ := by
  induction cs with
  | nil => exact ⟨fun _ _ member => (nomatch member),fun _ => rfl⟩
  | cons c rest ih =>
      rw [List.forM_eq_forM,List.forM_cons,List.forall_mem_cons,← ih]
      constructor
      · intro done
        obtain ⟨_,first,later⟩ := bind_ok done
        exact ⟨first,later⟩
      · rintro ⟨first,later⟩
        rw [first]
        exact later

-- A loop that ends without an error keeps what each of its turns keeps.
theorem foldlM_keeps_on {f : β → γ → Except ε β} (P : β → Prop) {cs : List γ}
    (turn : ∀ b, ∀ c ∈ cs, ∀ after, P b → f b c = .ok after → P after) {b after : β}
    (start : P b) (done : cs.foldlM f b = .ok after) : P after := by
  induction cs generalizing b with
  | nil => cases done; exact start
  | cons c rest ih =>
      rw [List.foldlM_cons] at done
      obtain ⟨next,first,later⟩ := bind_ok done
      exact ih (fun b d member => turn b d (List.mem_cons_of_mem _ member)) (turn b c List.mem_cons_self next start first) later

theorem foldlM_keeps {f : β → γ → Except ε β} (P : β → Prop)
    (turn : ∀ b c after, P b → f b c = .ok after → P after) {cs : List γ} {b after : β}
    (start : P b) (done : cs.foldlM f b = .ok after) : P after :=
  foldlM_keeps_on P (fun b c _ => turn b c) start done

-- A loop whose turns stop for their items alone.
theorem foldlM_accepts {f : β → γ → Except ε β} {fit : γ → Prop} (accepts : ∀ b c, (∃ after, f b c = .ok after) ↔ fit c)
    (cs : List γ) (b : β) : (∃ after, cs.foldlM f b = .ok after) ↔ ∀ c ∈ cs, fit c := by
  induction cs generalizing b with
  | nil => simp [pure,Except.pure]
  | cons c rest ih =>
      rw [List.foldlM_cons,List.forall_mem_cons]
      constructor
      · rintro ⟨after,done⟩
        obtain ⟨next,turn,later⟩ := bind_ok done
        exact ⟨(accepts b c).mp ⟨next,turn⟩,(ih next).mp ⟨after,later⟩⟩
      · rintro ⟨fits,others⟩
        obtain ⟨next,turn⟩ := (accepts b c).mpr fits
        rw [turn]
        exact (ih next).mpr others

-- Two loops that differ in their errors alone.
theorem foldlM_ok_congr {f : β → γ → Except ε β} {g : β → γ → Except ε' β}
    (turns : ∀ b after c, f b c = .ok after ↔ g b c = .ok after) (cs : List γ) (b after : β) :
    cs.foldlM f b = .ok after ↔ cs.foldlM g b = .ok after := by
  induction cs generalizing b with
  | nil => simp [pure,Except.pure]
  | cons c rest ih =>
      rw [List.foldlM_cons,List.foldlM_cons]
      constructor
      · intro done
        obtain ⟨next,turn,later⟩ := bind_ok done
        rw [(turns b next c).mp turn]
        exact (ih next).mp later
      · intro done
        obtain ⟨next,turn,later⟩ := bind_ok done
        rw [(turns b next c).mpr turn]
        exact (ih next).mpr later

-- A loop whose turn works on two states side by side is two loops.
theorem foldlM_pair {α β : Type v} {f : α → γ → Except ε α} {g : β → γ → Except ε β} (cs : List γ) {a after : α}
    {b after' : β} :
    cs.foldlM (fun s c => do let first ← f s.1 c; let second ← g s.2 c; pure (first,second)) (a,b) = .ok (after,after') ↔
      cs.foldlM f a = .ok after ∧ cs.foldlM g b = .ok after' := by
  induction cs generalizing a b with
  | nil => simp [pure,Except.pure]
  | cons c rest ih =>
      simp only [List.foldlM_cons]
      constructor
      · intro done
        obtain ⟨next,turn,later⟩ := bind_ok done
        obtain ⟨first,one,turn⟩ := bind_ok turn
        obtain ⟨second,two,turn⟩ := bind_ok turn
        cases turn
        rw [one,two]
        exact ih.mp later
      · rintro ⟨done,done'⟩
        obtain ⟨first,one,later⟩ := bind_ok done
        obtain ⟨second,two,later'⟩ := bind_ok done'
        rw [one,ok_bind,two]
        exact ih.mpr ⟨later,later'⟩

end Fallible
