import Mathlib.Data.List.Basic
import Mathlib.Data.List.Infix

-- Text in which a label between braces stands for a value. Labels hold no brace; a
-- text in braces that is no known label stays what it is.
namespace Braces

inductive Segment (α : Type u) where
  | char (c : Char)
  | value (a : α)
  deriving DecidableEq

def chars {α : Type u} (text : List Char) : List (Segment α) := text.map .char

def label_of : List Char → Option (List Char)
  | [] => none
  | c :: cs => if c = '}' then some [] else if c = '{' then none else (label_of cs).map (c :: ·)

def slot (label : List Char) : List Char := '{' :: label ++ ['}']

def Braceless (label : List Char) : Prop := '{' ∉ label ∧ '}' ∉ label

section
variable {α : Type u} (values : List Char → Option α)

def opening : List Char → Option (List Char × α)
  | [] => none
  | c :: cs => if c = '{' then (label_of cs).bind fun label => (values label).map fun a => (label,a) else none

-- The first argument counts characters of a label that was replaced already.
def fillFrom : Nat → List Char → List (Segment α)
  | _,[] => []
  | skip + 1,_ :: cs => fillFrom skip cs
  | 0,c :: cs =>
    match opening values (c :: cs) with
    | some (label,a) => .value a :: fillFrom (label.length + 1) cs
    | none => .char c :: fillFrom 0 cs

-- Every known label at once, from left to right.
def fill (text : List Char) : List (Segment α) := fillFrom values 0 text

def Clean (text : List Char) : Prop := ∀ label a, values label = some a → ¬ slot label <:+: text

-- A text that cannot begin inside a label or with its end.
def Apart (rest : List Char) : Prop := ∀ c ∈ rest.head?, c ≠ '}' ∧ ∀ label a, values label = some a → c ∉ label

end

theorem label_of_iff {cs label : List Char} : label_of cs = some label ↔ ∃ rest, cs = label ++ '}' :: rest ∧ Braceless label := by
  induction cs generalizing label with
  | nil => simp [label_of]
  | cons c cs ih =>
      unfold label_of
      by_cases closing : c = '}'
      · subst closing
        rw [if_pos rfl]
        constructor
        · intro found
          cases found
          exact ⟨cs,rfl,List.not_mem_nil,List.not_mem_nil⟩
        · intro found
          obtain ⟨rest,split,free⟩ := found
          cases label with
          | nil => rfl
          | cons l label =>
              obtain ⟨rfl,_⟩ := List.cons.inj split
              exact absurd List.mem_cons_self free.2
      · rw [if_neg closing]
        by_cases brace : c = '{'
        · subst brace
          rw [if_pos rfl]
          constructor
          · intro found; cases found
          · intro found
            obtain ⟨rest,split,free⟩ := found
            cases label with
            | nil => exact absurd (List.cons.inj split).1 (by decide)
            | cons l label =>
                obtain ⟨rfl,_⟩ := List.cons.inj split
                exact absurd List.mem_cons_self free.1
        · rw [if_neg brace,Option.map_eq_some_iff]
          constructor
          · intro found
            obtain ⟨tail,inner,rfl⟩ := found
            obtain ⟨rest,rfl,free⟩ := ih.mp inner
            refine ⟨rest,rfl,?_,?_⟩
            · simp [Ne.symm brace,free.1]
            · simp [Ne.symm closing,free.2]
          · intro found
            obtain ⟨rest,split,free⟩ := found
            cases label with
            | nil => exact absurd (List.cons.inj split).1 closing
            | cons l label =>
                obtain ⟨rfl,tail⟩ := List.cons.inj split
                refine ⟨label,ih.mpr ⟨rest,tail,?_,?_⟩,rfl⟩
                · exact fun member => free.1 (List.mem_cons_of_mem _ member)
                · exact fun member => free.2 (List.mem_cons_of_mem _ member)

section
variable {α : Type u} {values : List Char → Option α}

theorem opening_iff {text label : List Char} {a : α} : opening values text = some (label,a) ↔
    (∃ rest, text = slot label ++ rest) ∧ Braceless label ∧ values label = some a := by
  cases text with
  | nil => simp [opening,slot]
  | cons c cs =>
      simp only [opening]
      by_cases brace : c = '{'
      · subst brace
        rw [if_pos rfl,Option.bind_eq_some_iff]
        constructor
        · intro found
          obtain ⟨label',inner,known⟩ := found
          obtain ⟨rest,rfl,free⟩ := label_of_iff.mp inner
          obtain ⟨a',known,same⟩ := Option.map_eq_some_iff.mp known
          cases same
          exact ⟨⟨rest,by simp [slot]⟩,free,known⟩
        · intro found
          obtain ⟨⟨rest,split⟩,free,known⟩ := found
          have inner : cs = label ++ '}' :: rest := by simpa [slot] using split
          exact ⟨label,label_of_iff.mpr ⟨rest,inner,free⟩,by rw [known]; rfl⟩
      · rw [if_neg brace]
        constructor
        · intro found; cases found
        · intro found
          obtain ⟨⟨rest,split⟩,_⟩ := found
          exact absurd (List.cons.inj split).1 brace

@[simp] theorem fill_nil : fill values [] = [] := rfl

theorem fill_cons {c : Char} (plain : c ≠ '{') (rest : List Char) : fill values (c :: rest) = .char c :: fill values rest := by
  simp only [fill,fillFrom,opening,if_neg plain]

theorem fillFrom_drop (skip : Nat) (text : List Char) : fillFrom values skip text = fill values (text.drop skip) := by
  induction text generalizing skip with
  | nil => cases skip <;> rfl
  | cons c cs ih =>
      cases skip with
      | zero => rfl
      | succ skip => exact ih skip

theorem fill_slot {label : List Char} (free : Braceless label) (known : values label = some a) (rest : List Char) :
    fill values (slot label ++ rest) = .value a :: fill values rest := by
  have found : opening values (slot label ++ rest) = some (label,a) := opening_iff.mpr ⟨⟨rest,rfl⟩,free,known⟩
  have split : slot label ++ rest = '{' :: (label ++ '}' :: rest) := by simp [slot]
  rw [split] at found
  rw [split,fill,fillFrom,found]
  simp only [fillFrom_drop]
  rw [← List.drop_drop,List.drop_left]
  rfl

-- What follows a text cannot close a label that the text has opened.
theorem opening_append {text rest : List Char} (apart : Apart values rest) (filled : text ≠ []) :
    opening values (text ++ rest) = opening values text := by
  have forward : ∀ label a, opening values (text ++ rest) = some (label,a) → opening values text = some (label,a) := by
    intro label a found
    obtain ⟨⟨more,split⟩,free,known⟩ := opening_iff.mp found
    refine opening_iff.mpr ⟨?_,free,known⟩
    rcases List.append_eq_append_iff.mp split with ⟨inside,outer,_⟩ | ⟨inside,outer,_⟩
    · cases inside with
      | nil => exact ⟨[],by rw [outer]; simp⟩
      | cons d inside =>
          rename_i tail
          rw [tail] at apart
          obtain ⟨ending,other⟩ := apart d rfl
          cases text with
          | nil => exact absurd rfl filled
          | cons c cs =>
              have whole : label ++ ['}'] = cs ++ d :: inside := by simpa [slot] using (List.cons.inj outer).2
              have member : d ∈ label ++ ['}'] := whole ▸ List.mem_append_right _ List.mem_cons_self
              rcases List.mem_append.mp member with among | last
              · exact absurd among (other label a known)
              · exact absurd (List.mem_singleton.mp last) ending
    · exact ⟨inside,outer⟩
  cases found : opening values (text ++ rest) with
  | some pair => exact (forward pair.1 pair.2 found).symm
  | none =>
      cases inner : opening values text with
      | none => rfl
      | some pair =>
          obtain ⟨⟨more,split⟩,free,known⟩ := opening_iff.mp (show opening values text = some (pair.1,pair.2) from inner)
          have also : opening values (text ++ rest) = some (pair.1,pair.2) :=
            opening_iff.mpr ⟨⟨more ++ rest,by rw [split,List.append_assoc]⟩,free,known⟩
          rw [found] at also
          cases also

theorem fillFrom_append {text rest : List Char} (apart : Apart values rest) {skip : Nat} (within : skip ≤ text.length) :
    fillFrom values skip (text ++ rest) = fillFrom values skip text ++ fill values rest := by
  induction text generalizing skip with
  | nil =>
      cases Nat.le_zero.mp within
      rfl
  | cons c cs ih =>
      cases skip with
      | succ skip => exact ih (Nat.le_of_succ_le_succ within)
      | zero =>
          have same := opening_append apart (List.cons_ne_nil c cs)
          rw [List.cons_append] at same ⊢
          simp only [fillFrom]
          rw [same]
          cases found : opening values (c :: cs) with
          | none => exact congrArg (_ :: ·) (ih (Nat.zero_le _))
          | some pair =>
              obtain ⟨⟨more,split⟩,_⟩ := opening_iff.mp (show opening values (c :: cs) = some (pair.1,pair.2) from found)
              have inner : cs = pair.1 ++ '}' :: more := by simpa [slot] using (List.cons.inj split).2
              have room : pair.1.length + 1 ≤ cs.length := by rw [inner]; simp
              exact congrArg (_ :: ·) (ih room)

theorem fill_append {text rest : List Char} (apart : Apart values rest) :
    fill values (text ++ rest) = fill values text ++ fill values rest := fillFrom_append apart (Nat.zero_le _)

theorem clean_cons {c : Char} {cs : List Char} : Clean values (c :: cs) ↔
    (∀ label a, values label = some a → ¬ slot label <+: c :: cs) ∧ Clean values cs := by
  simp only [Clean,List.infix_cons_iff,not_or]
  exact ⟨fun h => ⟨fun l a k => (h l a k).1,fun l a k => (h l a k).2⟩,fun h l a k => ⟨h.1 l a k,h.2 l a k⟩⟩

-- A filled text is the text itself, and what follows is as it should be, when no label occurs in it.
theorem text_iff (free : ∀ label a, values label = some a → Braceless label) {text : List Char} {X Y : List (Segment α)} :
    fill values text ++ X = chars text ++ Y ↔ Clean values text ∧ X = Y := by
  induction text with
  | nil =>
      refine ⟨fun same => ⟨?_,same⟩,fun both => both.2⟩
      intro label a _ inside
      cases List.infix_nil.mp inside
  | cons c cs ih =>
      rw [clean_cons]
      cases found : opening values (c :: cs) with
      | some pair =>
          obtain ⟨⟨more,split⟩,_,known⟩ := opening_iff.mp (show opening values (c :: cs) = some (pair.1,pair.2) from found)
          simp only [fill,fillFrom,found,chars,List.map_cons,List.cons_append]
          constructor
          · intro same
            cases (List.cons.inj same).1
          · intro both
            exact absurd ⟨more,split.symm⟩ (both.1.1 pair.1 pair.2 known)
      | none =>
          have front : ∀ label a, values label = some a → ¬ slot label <+: c :: cs := by
            intro label a known inside
            obtain ⟨more,split⟩ := inside
            have also := opening_iff.mpr ⟨⟨more,split.symm⟩,free label a known,known⟩
            rw [found] at also
            cases also
          have next : fill values (c :: cs) = .char c :: fill values cs := by simp only [fill,fillFrom,found]
          rw [next]
          simp only [chars,List.map_cons,List.cons_append,List.cons.injEq,true_and]
          rw [← chars,ih]
          exact ⟨fun both => ⟨⟨front,both.1⟩,both.2⟩,fun both => ⟨both.1.2,both.2⟩⟩

theorem fill_plain {text : List Char} (plain : '{' ∉ text) (rest : List Char) :
    fill values (text ++ rest) = chars text ++ fill values rest := by
  induction text with
  | nil => rfl
  | cons c cs ih =>
      rw [List.cons_append,fill_cons (Ne.symm (List.ne_of_not_mem_cons plain)),ih (List.not_mem_of_not_mem_cons plain)]
      rfl

theorem plain_iff {text : List Char} (plain : '{' ∉ text) {rest : List Char} {Y : List (Segment α)} :
    fill values (text ++ rest) = chars text ++ Y ↔ fill values rest = Y := by
  rw [fill_plain plain,List.append_cancel_left_eq]

-- Texts that are joined by a separator come out one by one.
theorem joined_iff {ι : Type w} {sep : List Char} (plain : '{' ∉ sep) (apart_sep : ∀ rest, Apart values (sep ++ rest))
    {text : ι → List Char} {own : ι → List (Segment α)} {P : ι → Prop} {items : List ι}
    (each : ∀ i ∈ items, ∀ rest Y, Apart values rest → (fill values (text i ++ rest) = own i ++ Y ↔ P i ∧ fill values rest = Y))
    {rest : List Char} {Y : List (Segment α)} (apart : Apart values rest) :
    fill values (sep.intercalate (items.map text) ++ rest) = (chars sep).intercalate (items.map own) ++ Y ↔
      (∀ i ∈ items, P i) ∧ fill values rest = Y := by
  induction items with
  | nil => simp [List.intercalate_nil]
  | cons i more ih =>
      have first := each i List.mem_cons_self
      cases more with
      | nil => simpa [List.intercalate_singleton] using first rest Y apart
      | cons j more =>
          have others := ih fun k member => each k (List.mem_cons_of_mem _ member)
          simp only [List.map_cons,List.intercalate_cons_cons,List.append_assoc] at others ⊢
          rw [first _ _ (apart_sep _),fill_plain plain,List.append_cancel_left_eq,others,List.forall_mem_cons (l := j :: more)]
          exact and_assoc.symm

end
end Braces
