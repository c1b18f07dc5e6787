import Mathlib.Data.List.Basic

-- Text that carries references of the form ${name.path}: the first dot ends the name
-- and the first closing brace ends the path, both non-empty. Reading a text gives its
-- pieces; writing the pieces back after the names were replaced can be read again.
namespace Placeholder

inductive Piece where
  | char (c : Char)
  | ref (name path : List Char)
  deriving DecidableEq,Repr

namespace Piece

def text : Piece → List Char
  | .char c => [c]
  | .ref name path => '$' :: '{' :: name ++ '.' :: path ++ ['}']

def rename (f : List Char → List Char) : Piece → Piece
  | .char c => .char c
  | .ref name path => .ref (f name) path

end Piece

def pathOf : List Char → Option (List Char)
  | [] => none
  | c :: cs => if c = '}' then some [] else (pathOf cs).map (c :: ·)

def nameOf : List Char → Option (List Char × List Char)
  | [] => none
  | c :: cs =>
      if c = '}' then none
      else if c = '.' then
        match pathOf cs with
        | some (p :: path) => some ([],p :: path)
        | _ => none
      else (nameOf cs).map fun found => (c :: found.1,found.2)

def opening : List Char → Option (List Char × List Char)
  | '$' :: '{' :: cs => (nameOf cs).filter fun found => found.1 ≠ []
  | _ => none

-- The first argument counts characters that belong to a reference already read.
def scanFrom : Nat → List Char → List Piece
  | _,[] => []
  | skip + 1,_ :: cs => scanFrom skip cs
  | 0,c :: cs =>
      match opening (c :: cs) with
      | some (name,path) => .ref name path :: scanFrom (name.length + path.length + 3) cs
      | none => .char c :: scanFrom 0 cs

def scan (cs : List Char) : List Piece := scanFrom 0 cs

def render (pieces : List Piece) : List Char := pieces.flatMap Piece.text

structure Plain (name : List Char) : Prop where
  filled : name ≠ []
  no_dot : '.' ∉ name
  no_brace : '}' ∉ name

structure Readable (path : List Char) : Prop where
  filled : path ≠ []
  no_brace : '}' ∉ path

def Wellformed : Piece → Prop
  | .char _ => True
  | .ref name path => Plain name ∧ Readable path

theorem pathOf_iff {cs path : List Char} : pathOf cs = some path ↔ ∃ rest, cs = path ++ '}' :: rest ∧ '}' ∉ path := by
  induction cs generalizing path with
  | nil => simp [pathOf]
  | cons c cs ih =>
      unfold pathOf
      by_cases brace : c = '}'
      · subst brace
        simp only [if_true,Option.some.injEq]
        constructor
        · intro empty; subst empty; exact ⟨cs,rfl,List.not_mem_nil⟩
        · intro h
          obtain ⟨rest,split,free⟩ := h
          cases path with
          | nil => rfl
          | cons p path =>
              obtain ⟨rfl,_⟩ := List.cons.inj split
              exact absurd List.mem_cons_self free
      · rw [if_neg brace,Option.map_eq_some_iff]
        constructor
        · intro h
          obtain ⟨tail,found,rfl⟩ := h
          obtain ⟨rest,rfl,free⟩ := ih.mp found
          exact ⟨rest,rfl,by simp [Ne.symm brace,free]⟩
        · intro h
          obtain ⟨rest,split,free⟩ := h
          cases path with
          | nil => exact absurd (List.cons.inj split).1 brace
          | cons p path =>
              obtain ⟨rfl,tail⟩ := List.cons.inj split
              exact ⟨path,ih.mpr ⟨rest,tail,fun member => free (List.mem_cons_of_mem _ member)⟩,rfl⟩

theorem pathOf_isSome {cs : List Char} : (pathOf cs).isSome ↔ '}' ∈ cs := by
  induction cs with
  | nil => simp [pathOf]
  | cons c cs ih =>
      unfold pathOf
      by_cases brace : c = '}'
      · simp [brace]
      · simp [brace,Ne.symm brace,ih]

theorem nameOf_iff {cs name path : List Char} : nameOf cs = some (name,path) ↔
    ∃ rest, cs = name ++ '.' :: path ++ '}' :: rest ∧ '.' ∉ name ∧ '}' ∉ name ∧ Readable path := by
  induction cs generalizing name with
  | nil => simp [nameOf]
  | cons c cs ih =>
      unfold nameOf
      by_cases brace : c = '}'
      · subst brace
        simp only [if_true]
        constructor
        · intro h; cases h
        · intro h
          obtain ⟨rest,split,_,free,_⟩ := h
          cases name with
          | nil => exact absurd (List.cons.inj split).1 (by decide)
          | cons n name =>
              obtain ⟨rfl,_⟩ := List.cons.inj split
              exact absurd List.mem_cons_self free
      · rw [if_neg brace]
        by_cases dot : c = '.'
        · subst dot
          simp only [if_true]
          constructor
          · intro h
            split at h
            · rename_i p tail found
              cases h
              obtain ⟨rest,rfl,free⟩ := pathOf_iff.mp found
              exact ⟨rest,by simp,by simp,by simp,by simp,free⟩
            · cases h
          · intro h
            obtain ⟨rest,split,free,_,readable⟩ := h
            cases name with
            | nil =>
                have tail : cs = path ++ '}' :: rest := by simpa using split
                have found := pathOf_iff.mpr ⟨rest,tail,readable.no_brace⟩
                cases path with
                | nil => exact absurd rfl readable.filled
                | cons p path => rw [found]
            | cons n name =>
                obtain ⟨rfl,_⟩ := List.cons.inj split
                exact absurd List.mem_cons_self free
        · rw [if_neg dot,Option.map_eq_some_iff]
          constructor
          · intro h
            obtain ⟨⟨tail,path'⟩,found,same⟩ := h
            cases same
            obtain ⟨rest,rfl,free,closed,readable⟩ := ih.mp found
            exact ⟨rest,by simp,by simp [Ne.symm dot,free],by simp [Ne.symm brace,closed],readable⟩
          · intro h
            obtain ⟨rest,split,free,closed,readable⟩ := h
            cases name with
            | nil => exact absurd (List.cons.inj split).1 dot
            | cons n name =>
                obtain ⟨rfl,tail⟩ := List.cons.inj split
                refine ⟨(name,path),ih.mpr ⟨rest,by simpa using tail,?_,?_,readable⟩,rfl⟩
                · exact fun member => free (List.mem_cons_of_mem _ member)
                · exact fun member => closed (List.mem_cons_of_mem _ member)

theorem opening_iff {cs name path : List Char} : opening cs = some (name,path) ↔
    Wellformed (.ref name path) ∧ ∃ rest, cs = Piece.text (.ref name path) ++ rest := by
  constructor
  · intro h
    unfold opening at h
    split at h
    · obtain ⟨found,filled⟩ := Option.filter_eq_some_iff.mp h
      obtain ⟨rest,rfl,free,closed,readable⟩ := nameOf_iff.mp found
      exact ⟨⟨⟨by simpa using filled,free,closed⟩,readable⟩,rest,by simp [Piece.text]⟩
    · cases h
  · intro h
    obtain ⟨⟨plain,readable⟩,rest,rfl⟩ := h
    have found : nameOf (name ++ '.' :: path ++ '}' :: rest) = some (name,path) :=
      nameOf_iff.mpr ⟨rest,rfl,plain.no_dot,plain.no_brace,readable⟩
    have start : Piece.text (.ref name path) ++ rest = '$' :: '{' :: (name ++ '.' :: path ++ '}' :: rest) := by
      simp [Piece.text]
    rw [start]
    exact Option.filter_eq_some_iff.mpr ⟨found,by simpa using plain.filled⟩

theorem scanFrom_drop (skip : Nat) (cs : List Char) : scanFrom skip cs = scan (cs.drop skip) := by
  induction skip generalizing cs with
  | zero => rfl
  | succ skip ih =>
      cases cs with
      | nil => rfl
      | cons c cs => exact ih cs

theorem scan_char {c : Char} {cs : List Char} (closed : opening (c :: cs) = none) :
    scan (c :: cs) = .char c :: scan cs := by
  rw [scan,scanFrom,closed]
  rfl

theorem scan_ref {name path : List Char} (wellformed : Wellformed (.ref name path)) (rest : List Char) :
    scan (Piece.text (.ref name path) ++ rest) = .ref name path :: scan rest := by
  have opened : opening (Piece.text (.ref name path) ++ rest) = some (name,path) :=
    opening_iff.mpr ⟨wellformed,rest,rfl⟩
  have start : Piece.text (.ref name path) ++ rest = '$' :: ('{' :: name ++ '.' :: path ++ ['}'] ++ rest) := by
    simp [Piece.text]
  rw [start] at opened ⊢
  rw [scan,scanFrom,opened]
  simp only [List.cons.injEq,true_and]
  rw [scanFrom_drop]
  have length : ('{' :: name ++ '.' :: path ++ ['}']).length = name.length + path.length + 3 := by
    simp; omega
  rw [← length,List.drop_left]

-- One step of reading, as a case split that the inductions below follow.
theorem scan_cases (c : Char) (cs : List Char) :
    (opening (c :: cs) = none ∧ scan (c :: cs) = .char c :: scan cs) ∨
    ∃ name path rest, Wellformed (.ref name path) ∧ c :: cs = Piece.text (.ref name path) ++ rest ∧
      scan (c :: cs) = .ref name path :: scan rest ∧ rest.length ≤ cs.length := by
  cases found : opening (c :: cs) with
  | none => exact .inl ⟨rfl,scan_char found⟩
  | some pair =>
      obtain ⟨name,path⟩ := pair
      obtain ⟨wellformed,rest,split⟩ := opening_iff.mp found
      refine .inr ⟨name,path,rest,wellformed,split,?_,?_⟩
      · rw [split]; exact scan_ref wellformed rest
      · have size := congrArg List.length split
        simp [Piece.text] at size
        omega

theorem scan_wellformed (cs : List Char) : ∀ piece ∈ scan cs, Wellformed piece := by
  induction size : cs.length using Nat.strongRecOn generalizing cs with
  | ind n ih =>
      cases cs with
      | nil => intro piece member; cases member
      | cons c cs =>
          subst size
          intro piece member
          rcases scan_cases c cs with ⟨_,here⟩ | ⟨name,path,rest,wellformed,_,here,shorter⟩
          · rw [here] at member
            rcases List.mem_cons.mp member with rfl | later
            · trivial
            · exact ih _ (by simp) cs rfl piece later
          · rw [here] at member
            rcases List.mem_cons.mp member with rfl | later
            · exact wellformed
            · exact ih _ (by simp; omega) rest rfl piece later

theorem render_scan (cs : List Char) : render (scan cs) = cs := by
  induction size : cs.length using Nat.strongRecOn generalizing cs with
  | ind n ih =>
      cases cs with
      | nil => rfl
      | cons c cs =>
          subst size
          rcases scan_cases c cs with ⟨_,here⟩ | ⟨name,path,rest,_,split,here,shorter⟩
          · rw [here,render,List.flatMap_cons,← render,ih _ (by simp) cs rfl]; rfl
          · rw [here,render,List.flatMap_cons,← render,ih _ (by simp; omega) rest rfl,split]

-- The names that a text refers to.
def refNames (cs : List Char) : List (List Char) :=
  (scan cs).filterMap fun piece => match piece with
    | .char _ => none
    | .ref name _ => some name

theorem refNames_char {c : Char} {cs : List Char} (closed : opening (c :: cs) = none) : refNames (c :: cs) = refNames cs := by
  unfold refNames
  rw [scan_char closed]
  rfl

theorem refNames_ref {name path : List Char} (wellformed : Wellformed (.ref name path)) (rest : List Char) :
    refNames (Piece.text (.ref name path) ++ rest) = name :: refNames rest := by
  unfold refNames
  rw [scan_ref wellformed]
  rfl

theorem refNames_front {front : List Char} (plain : '$' ∉ front) (cs : List Char) : refNames (front ++ cs) = refNames cs := by
  induction front with
  | nil => rfl
  | cons c rest ih =>
      obtain ⟨other,later⟩ := not_or.mp (List.mem_cons.not.mp plain)
      rw [List.cons_append,refNames_char,ih later]
      cases found : opening (c :: (rest ++ cs)) with
      | none => rfl
      | some pair =>
          obtain ⟨_,tail,split⟩ := opening_iff.mp found
          exact absurd (List.cons.inj split).1.symm other

-- A text that closes nothing adds no reference behind another.
theorem refNames_back {back : List Char} (plain : '$' ∉ back) (closed : '}' ∉ back) (cs : List Char) :
    refNames (cs ++ back) = refNames cs := by
  induction size : cs.length using Nat.strongRecOn generalizing cs with
  | ind n ih =>
      cases cs with
      | nil =>
          have behind := refNames_front plain []
          rw [List.append_nil] at behind
          exact behind
      | cons c cs =>
          subst size
          rcases scan_cases c cs with ⟨unopened,_⟩ | ⟨name,path,rest,wellformed,split,_,shorter⟩
          · have still : opening (c :: (cs ++ back)) = none := by
              cases found : opening (c :: (cs ++ back)) with
              | none => rfl
              | some pair =>
                  obtain ⟨wellformed,tail,split⟩ := opening_iff.mp found
                  rw [← List.cons_append] at split
                  rcases List.append_eq_append_iff.mp split with ⟨more,text,rest⟩ | ⟨more,text,rest⟩
                  · rcases List.eq_nil_or_concat more with rfl | ⟨most,last,rfl⟩
                    · rw [List.append_nil] at text
                      have opened := opening_iff.mpr ⟨wellformed,[],(List.append_nil _).symm⟩
                      rw [text] at opened
                      cases unopened.symm.trans opened
                    · have whole : ('$' :: '{' :: pair.1 ++ '.' :: pair.2) ++ ['}'] = (c :: cs ++ most) ++ [last] := by
                        simpa [Piece.text] using text
                      have ends : '}' = last := List.singleton_inj.mp (List.append_inj' whole rfl).2
                      rw [rest,← ends] at closed
                      exact absurd (by simp) closed
                  · have opened := opening_iff.mpr ⟨wellformed,more,text⟩
                    cases unopened.symm.trans opened
            rw [List.cons_append,refNames_char still,refNames_char unopened]
            exact ih _ (by simp) cs rfl
          · rw [split,List.append_assoc,refNames_ref wellformed,refNames_ref wellformed]
            rw [ih _ (by simp; omega) rest rfl]

-- Whether a reference starts in front of some pieces does not depend on the names in them.
def closes : List Piece → Bool
  | [] => false
  | .char c :: pieces => c == '}' || closes pieces
  | .ref _ _ :: _ => true

def namesClose : List Piece → Bool
  | [] => false
  | .char c :: pieces =>
      if c = '}' then false
      else if c = '.' then closes pieces && pieces.head? != some (.char '}')
      else namesClose pieces
  | .ref _ _ :: _ => true

theorem pathOf_render (pieces : List Piece) : (pathOf (render pieces)).isSome = closes pieces := by
  induction pieces with
  | nil => rfl
  | cons piece pieces ih =>
      rw [render,List.flatMap_cons,← render]
      cases piece with
      | char c =>
          simp only [Piece.text,List.singleton_append,pathOf,closes]
          by_cases brace : c = '}'
          · simp [brace]
          · simp [brace,ih]
      | ref name path =>
          simp only [closes]
          exact pathOf_isSome.mpr (by simp [Piece.text])

theorem pathOf_empty {cs : List Char} : pathOf cs = some [] ↔ cs.head? = some '}' := by
  rw [pathOf_iff]
  cases cs with
  | nil => simp
  | cons c cs => simp

theorem render_head (pieces : List Piece) :
    (render pieces).head? = some '}' ↔ pieces.head? = some (.char '}') := by
  cases pieces with
  | nil => simp [render]
  | cons piece pieces => cases piece <;> simp [render,Piece.text]

theorem nameOf_render {pieces : List Piece} (wellformed : ∀ piece ∈ pieces, Wellformed piece) :
    (nameOf (render pieces)).isSome = namesClose pieces := by
  induction pieces with
  | nil => rfl
  | cons piece pieces ih =>
      have tail := ih fun p member => wellformed p (List.mem_cons_of_mem _ member)
      rw [render,List.flatMap_cons,← render]
      cases piece with
      | char c =>
          simp only [Piece.text,List.singleton_append,nameOf,namesClose]
          by_cases brace : c = '}'
          · simp [brace]
          · by_cases dot : c = '.'
            · subst dot
              simp only [brace,if_false,if_true]
              have same := pathOf_render pieces
              cases found : pathOf (render pieces) with
              | none => rw [found] at same; simp [← same]
              | some path =>
                  rw [found] at same
                  cases path with
                  | nil =>
                      have head := (render_head pieces).mp (pathOf_empty.mp found)
                      simp [head]
                  | cons p path =>
                      have head : pieces.head? ≠ some (.char '}') := by
                        intro h
                        have empty := pathOf_empty.mpr ((render_head pieces).mpr h)
                        rw [found] at empty
                        cases empty
                      simp [← same,head]
            · simp [brace,dot,tail]
      | ref name path =>
          obtain ⟨plain,readable⟩ := wellformed _ List.mem_cons_self
          have found : nameOf (Piece.text (.ref name path) ++ render pieces) = some ('$' :: '{' :: name,path) := by
            refine nameOf_iff.mpr ⟨render pieces,by simp [Piece.text],?_,?_,readable⟩
            · simp [plain.no_dot]
            · simp [plain.no_brace]
          rw [found]
          rfl

theorem nameOf_head {cs : List Char} (found : nameOf cs = some (name,path)) : name = [] ↔ cs.head? = some '.' := by
  obtain ⟨rest,rfl,free,_⟩ := nameOf_iff.mp found
  cases name with
  | nil => simp
  | cons n name =>
      have different : n ≠ '.' := fun same => free (same ▸ List.mem_cons_self)
      simp [different]

theorem render_head_dot (pieces : List Piece) :
    (render pieces).head? = some '.' ↔ pieces.head? = some (.char '.') := by
  cases pieces with
  | nil => simp [render]
  | cons piece pieces => cases piece <;> simp [render,Piece.text]

def opens (c : Char) : List Piece → Bool
  | .char d :: pieces => c == '$' && d == '{' && namesClose pieces && pieces.head? != some (.char '.')
  | _ => false

theorem opening_other {c d : Char} (other : ¬(c = '$' ∧ d = '{')) (cs : List Char) : opening (c :: d :: cs) = none := by
  unfold opening
  split
  · rename_i same
    cases same
    exact absurd ⟨rfl,rfl⟩ other
  · rfl

theorem opening_render {pieces : List Piece} (wellformed : ∀ piece ∈ pieces, Wellformed piece) (c : Char) :
    (opening (c :: render pieces)).isSome = opens c pieces := by
  cases pieces with
  | nil => simp [render,opening,opens]
  | cons piece pieces =>
      rw [render,List.flatMap_cons,← render]
      cases piece with
      | ref name path =>
          simp only [Piece.text,opens,List.cons_append]
          rw [opening_other fun start => absurd start.2 (by decide)]
          rfl
      | char d =>
          simp only [Piece.text,List.singleton_append,opens]
          by_cases start : c = '$' ∧ d = '{'
          · obtain ⟨rfl,rfl⟩ := start
            have same := nameOf_render fun p member => wellformed p (List.mem_cons_of_mem _ member)
            simp only [opening,beq_self_eq_true,Bool.true_and]
            cases found : nameOf (render pieces) with
            | none => rw [found] at same; simp [← same]
            | some pair =>
                have head := (nameOf_head found).trans (render_head_dot pieces)
                rw [found] at same
                by_cases empty : pair.1 = []
                · simp [empty,head.mp empty]
                · simp [empty,← same,mt head.mpr empty]
          · rw [opening_other start]
            rcases not_and_or.mp start with h | h <;> simp [h]

theorem namesClose_rename (f : List Char → List Char) (pieces : List Piece) :
    closes (pieces.map (Piece.rename f)) = closes pieces ∧
    namesClose (pieces.map (Piece.rename f)) = namesClose pieces ∧
    ∀ c, (pieces.map (Piece.rename f)).head? = some (.char c) ↔ pieces.head? = some (.char c) := by
  induction pieces with
  | nil => simp
  | cons piece pieces ih =>
      obtain ⟨closed,named,head⟩ := ih
      cases piece with
      | ref name path => exact ⟨rfl,rfl,by simp [Piece.rename]⟩
      | char c =>
          have brace : ((pieces.map (Piece.rename f)).head? != some (.char '}')) = (pieces.head? != some (.char '}')) := by
            rw [Bool.eq_iff_iff]
            simpa using not_congr (head '}')
          refine ⟨?_,?_,by simp [Piece.rename]⟩
          · simp only [List.map_cons,Piece.rename,closes,closed]
          · simp only [List.map_cons,Piece.rename,namesClose,closed,named,brace]

theorem opens_rename (f : List Char → List Char) (c : Char) (pieces : List Piece) :
    opens c (pieces.map (Piece.rename f)) = opens c pieces := by
  cases pieces with
  | nil => rfl
  | cons piece pieces =>
      obtain ⟨_,named,head⟩ := namesClose_rename f pieces
      cases piece with
      | ref name path => rfl
      | char d =>
          have dot : ((pieces.map (Piece.rename f)).head? != some (.char '.')) = (pieces.head? != some (.char '.')) := by
            rw [Bool.eq_iff_iff]
            simpa using not_congr (head '.')
          simp only [List.map_cons,Piece.rename,opens,named,dot]

theorem wellformed_rename {f : List Char → List Char} (keeps : ∀ name, Plain name → Plain (f name)) {pieces : List Piece}
    (wellformed : ∀ piece ∈ pieces, Wellformed piece) : ∀ piece ∈ pieces.map (Piece.rename f), Wellformed piece := by
  intro piece member
  obtain ⟨old,present,rfl⟩ := List.mem_map.mp member
  have here := wellformed old present
  cases old with
  | char c => trivial
  | ref name path => exact ⟨keeps name here.1,here.2⟩

-- Renaming the references of a text by plain names changes nothing else that a reader sees.
theorem scan_rename {f : List Char → List Char} (keeps : ∀ name, Plain name → Plain (f name)) (cs : List Char) :
    scan (render ((scan cs).map (Piece.rename f))) = (scan cs).map (Piece.rename f) := by
  induction size : cs.length using Nat.strongRecOn generalizing cs with
  | ind n ih =>
      cases cs with
      | nil => rfl
      | cons c cs =>
          subst size
          rcases scan_cases c cs with ⟨closed,here⟩ | ⟨name,path,rest,wellformed,_,here,shorter⟩
          · rw [here,List.map_cons,render,List.flatMap_cons,← render]
            have still : opening (c :: render ((scan cs).map (Piece.rename f))) = none := by
              rw [← Option.not_isSome_iff_eq_none,opening_render (wellformed_rename keeps (scan_wellformed cs)),
                opens_rename,← opening_render (scan_wellformed cs),render_scan,closed]
              simp
            have tail := ih _ (by simp) cs rfl
            simp only [Piece.rename,Piece.text,List.singleton_append]
            rw [scan_char still,tail]
          · rw [here,List.map_cons,render,List.flatMap_cons,← render]
            have tail := ih _ (by simp; omega) rest rfl
            simp only [Piece.rename]
            rw [scan_ref ⟨keeps name wellformed.1,wellformed.2⟩,tail]

-- The same where only the names that occur need plain replacements.
theorem scan_rename_names {f : List Char → List Char} {cs : List Char}
    (keeps : ∀ name path, Piece.ref name path ∈ scan cs → Plain (f name)) :
    scan (render ((scan cs).map (Piece.rename f))) = (scan cs).map (Piece.rename f) := by
  classical
  let g := fun name => if ∃ path, Piece.ref name path ∈ scan cs then f name else name
  have same : (scan cs).map (Piece.rename f) = (scan cs).map (Piece.rename g) := by
    refine List.map_congr_left fun piece member => ?_
    cases piece with
    | char c => rfl
    | ref name path =>
        have occurs : ∃ path, Piece.ref name path ∈ scan cs := ⟨path,member⟩
        simp only [Piece.rename,g,if_pos occurs]
  rw [same]
  refine scan_rename (fun name plain => ?_) cs
  by_cases occurs : ∃ path, Piece.ref name path ∈ scan cs
  · obtain ⟨path,member⟩ := occurs
    simp only [g,if_pos (⟨path,member⟩ : ∃ path, Piece.ref name path ∈ scan cs)]
    exact keeps name path member
  · simp only [g,if_neg occurs]
    exact plain

end Placeholder
