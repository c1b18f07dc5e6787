import Lumilake.Library.Separators
import Lumilake.Routes.TemplateArranged

-- Which documents have one template hash.
namespace Lumilake.TemplateHash
open JsonText

theorem int_text_injective {i j : Int} (same : int_text i = int_text j) : i = j := by
  have nat {m n : Nat} (digits : Nat.toDigits 10 m = Nat.toDigits 10 n) : m = n := by
    rw [← Nat.ofDigitChars_ten_toDigits (n := m),digits,Nat.ofDigitChars_ten_toDigits]
  have minus {n m : Nat} (clash : Nat.toDigits 10 n = '-' :: Nat.toDigits 10 m) : False :=
    absurd (nat_digits n '-' (clash ▸ List.mem_cons_self)) (by decide)
  cases i with
  | ofNat m =>
      cases j with
      | ofNat n => rw [nat same]
      | negSucc n => exact absurd same minus
  | negSucc m =>
      cases j with
      | ofNat n => exact absurd same.symm minus
      | negSucc n => rw [Nat.succ.inj (nat (List.cons.inj same).2)]

section
variable (floats : FloatText)

theorem float_text_mark (x : Number) : ∃ c ∈ float_text floats x, c = '.' ∨ c = 'e' ∨ c = 'I' := by
  cases x with
  | finite q => exact (floats.pointed q).elim (fun dot => ⟨_,dot,.inl rfl⟩) (fun e => ⟨_,e,.inr (.inl rfl)⟩)
  | minus_zero => exact ⟨'.',(by decide : '.' ∈ "-0.0".toList),.inl rfl⟩
  | minus_inf => exact ⟨'I',(by decide : 'I' ∈ "-Infinity".toList),.inr (.inr rfl)⟩
  | inf => exact ⟨'I',(by decide : 'I' ∈ "Infinity".toList),.inr (.inr rfl)⟩

theorem int_text_unmarked (i : Int) : ∀ c ∈ int_text i, ¬ (c = '.' ∨ c = 'e' ∨ c = 'I' ∨ c = 'N') := by
  have digits (n : Nat) : ∀ c ∈ Nat.toDigits 10 n, ¬ (c = '.' ∨ c = 'e' ∨ c = 'I' ∨ c = 'N') := by
    intro c member mark
    have digit := nat_digits n c member
    rcases mark with rfl | rfl | rfl | rfl <;> cases digit
  intro c member
  cases i with
  | ofNat n => exact digits n c member
  | negSucc n =>
      rcases List.mem_cons.mp member with rfl | later
      · decide
      · exact digits _ c later

theorem finite_text_plain (q : Rat) : 'I' ∉ floats.repr q ∧ 'N' ∉ floats.repr q := by
  have unmarked {c : Char} (letter : c ∈ ['I','N']) : c ∉ floats.repr q := by
    intro member
    simp only [List.mem_cons,List.not_mem_nil,or_false] at letter
    rcases floats.chars q c member with digit | mark
    · rcases letter with rfl | rfl <;> cases digit
    · simp only [List.mem_cons,List.not_mem_nil,or_false] at mark
      rcases letter with rfl | rfl <;> exact absurd mark (by decide)
  exact ⟨unmarked (by decide),unmarked (by decide)⟩

theorem float_text_injective {x y : Number} (same : float_text floats x = float_text floats y) : x = y := by
  have infinite (q : Rat) {s : List Char} (clash : floats.repr q = s) (marked : 'I' ∈ s) : False :=
    (finite_text_plain floats q).1 (clash ▸ marked)
  cases x with
  | finite q =>
      cases y with
      | finite r => rw [floats.distinct same]
      | minus_zero => exact absurd same (floats.signed q)
      | minus_inf => exact (infinite q same (by decide : 'I' ∈ "-Infinity".toList)).elim
      | inf => exact (infinite q same (by decide : 'I' ∈ "Infinity".toList)).elim
  | minus_zero =>
      cases y with
      | finite r => exact absurd same.symm (floats.signed r)
      | minus_zero => rfl
      | minus_inf => exact ((by decide : "-0.0".toList ≠ "-Infinity".toList) same).elim
      | inf => exact ((by decide : "-0.0".toList ≠ "Infinity".toList) same).elim
  | minus_inf =>
      cases y with
      | finite r => exact (infinite r same.symm (by decide : 'I' ∈ "-Infinity".toList)).elim
      | minus_inf => rfl
      | minus_zero => exact ((by decide : "-Infinity".toList ≠ "-0.0".toList) same).elim
      | inf => exact ((by decide : "-Infinity".toList ≠ "Infinity".toList) same).elim
  | inf =>
      cases y with
      | finite r => exact (infinite r same.symm (by decide : 'I' ∈ "Infinity".toList)).elim
      | inf => rfl
      | minus_zero => exact ((by decide : "Infinity".toList ≠ "-0.0".toList) same).elim
      | minus_inf => exact ((by decide : "Infinity".toList ≠ "-Infinity".toList) same).elim

theorem int_numeral_iff {i j : Int} : int_numeral i = int_numeral j ↔ i = j :=
  ⟨fun same => int_text_injective (congrArg Numeral.text same),fun same => same ▸ rfl⟩

theorem float_numeral_iff {x y : Number} : float_numeral floats x = float_numeral floats y ↔ x = y :=
  ⟨fun same => float_text_injective floats (congrArg Numeral.text same),fun same => same ▸ rfl⟩

theorem int_ne_float {i : Int} {x : Number} : int_numeral i ≠ float_numeral floats x := by
  intro same
  have text : int_text i = float_text floats x := congrArg Numeral.text same
  obtain ⟨c,member,mark⟩ := float_text_mark floats x
  exact int_text_unmarked i c (text ▸ member) (mark.imp_right (Or.imp_right .inl))

theorem int_ne_nan {i : Int} : int_numeral i ≠ nan_numeral := by
  intro same
  have text : int_text i = "NaN".toList := congrArg Numeral.text same
  have marked : 'N' ∈ int_text i := text ▸ (by decide : 'N' ∈ "NaN".toList)
  exact int_text_unmarked i 'N' marked (.inr (.inr (.inr rfl)))

theorem float_ne_nan {x : Number} : float_numeral floats x ≠ nan_numeral := by
  intro same
  have text : float_text floats x = "NaN".toList := congrArg Numeral.text same
  cases x with
  | finite q =>
      have marked : 'N' ∈ floats.repr q := (show floats.repr q = "NaN".toList from text) ▸ (by decide : 'N' ∈ "NaN".toList)
      exact (finite_text_plain floats q).2 marked
  | minus_zero => exact ((by decide : "-0.0".toList ≠ "NaN".toList) text).elim
  | minus_inf => exact ((by decide : "-Infinity".toList ≠ "NaN".toList) text).elim
  | inf => exact ((by decide : "Infinity".toList ≠ "NaN".toList) text).elim

end

-- Below `config`, below `config.api`, or elsewhere.
inductive Place where
  | other
  | config
  | api
  deriving DecidableEq

section
variable {Native : Type}

def Place.under [DecidableEq Native] (place : Place) (key : Key Native) : Place :=
  if key = .str (text "config") then .config
  else if place = .config ∧ key = .str (text "api") then .api
  else .other

variable [DecidableEq Native]

-- The documents differ at most in string values of `config.api.authorization`.
mutual
def Alike (place : Place) : Doc Native → Doc Native → Prop
  | .none,.none => True
  | .bool a,.bool b => a = b
  | .int i,.int j => i = j
  | .nan,.nan => True
  | .float x,.float y => x = y
  | .str s,.str t => s = t
  | .native m,.native n => m = n
  | .list items,.list items' => AlikeItems items items'
  | .tuple items,.tuple items' => AlikeItems items items'
  | .dict entries,.dict entries' => AlikeEntries place entries entries'
  | _,_ => False
def AlikeItems : List (Doc Native) → List (Doc Native) → Prop
  | [],[] => True
  | item :: items,item' :: items' => Alike .other item item' ∧ AlikeItems items items'
  | _,_ => False
def AlikeEntries (place : Place) : Entries Native → Entries Native → Prop
  | [],[] => True
  | (key,item) :: entries,(key',item') :: entries' =>
    key = key' ∧ (place = .api ∧ credential key item = true ∧ credential key' item' = true ∨ Alike (place.under key) item item') ∧
      AlikeEntries place entries entries'
  | _,_ => False
end

end

section
variable (floats : FloatText) {Native : Type} (str : Native → Text)

-- The document is written as a string.
def Prints (units_shown : List CodeUnit) : Doc Native → Prop
  | .str s => units s = units_shown
  | .native n => units (str n) = units_shown
  | _ => False

-- The documents agree in all that the hash looks at: it passes over every string under an
-- `authorization` key, tuples apart, and over what JSON writes alike. The two flags say
-- whether redaction reaches the documents.
mutual
def Blurred (left right : Bool) : Doc Native → Doc Native → Prop
  | .none,.none => True
  | .bool a,.bool b => a = b
  | .int i,.int j => i = j
  | .nan,.nan => True
  | .float x,.float y => x = y
  | .str s,.str t => units s = units t
  | .str s,.native n => units s = units (str n)
  | .native m,.str t => units (str m) = units t
  | .native m,.native n => units (str m) = units (str n)
  | .list items,.list items' => BlurredItems left right items items'
  | .list items,.tuple items' => BlurredItems left false items items'
  | .tuple items,.list items' => BlurredItems false right items items'
  | .tuple items,.tuple items' => BlurredItems false false items items'
  | .dict entries,.dict entries' => BlurredEntries left right entries entries'
  | _,_ => False
def BlurredItems (left right : Bool) : List (Doc Native) → List (Doc Native) → Prop
  | [],[] => True
  | item :: items,item' :: items' => Blurred left right item item' ∧ BlurredItems left right items items'
  | _,_ => False
def BlurredEntries (left right : Bool) : Entries Native → Entries Native → Prop
  | [],[] => True
  | (key,item) :: entries,(key',item') :: entries' =>
    key_text floats key = key_text floats key' ∧
      (if left && credential key item then
        if right && credential key' item' then True else Prints str (units API_CREDENTIAL_PLACEHOLDER) item'
      else if right && credential key' item' then Prints str (units API_CREDENTIAL_PLACEHOLDER) item
      else Blurred left right item item') ∧ BlurredEntries left right entries entries'
  | _,_ => False
end

end

section
variable {floats : FloatText} {Native : Type} {str : Native → Text}

-- A document as the hash sees it, where redaction reaches it or not.
def seen (reached : Bool) (d : Doc Native) : Doc Native := if reached then redact_api_credentials d else d

def seen_items (reached : Bool) (items : List (Doc Native)) : List (Doc Native) := if reached then redact_items items else items

def seen_entries (reached : Bool) (entries : Entries Native) : Entries Native := if reached then redact_entries entries else entries

theorem seen_list (reached : Bool) (items : List (Doc Native)) : seen reached (.list items) = .list (seen_items reached items) := by
  cases reached
  · rfl
  · rw [seen,if_pos rfl,redact_api_credentials]; rfl

theorem seen_tuple (reached : Bool) (items : List (Doc Native)) : seen reached (.tuple items) = .tuple (seen_items false items) := by
  cases reached
  · rfl
  · rw [seen,if_pos rfl,redact_api_credentials]
    · rfl
    all_goals intros; contradiction

theorem seen_dict (reached : Bool) (entries : Entries Native) : seen reached (.dict entries) = .dict (seen_entries reached entries) := by
  cases reached
  · rfl
  · rw [seen,if_pos rfl,redact_api_credentials]; rfl

theorem seen_items_cons (reached : Bool) (item : Doc Native) (items : List (Doc Native)) :
    seen_items reached (item :: items) = seen reached item :: seen_items reached items := by
  cases reached
  · rfl
  · rw [seen_items,if_pos rfl,redact_items]; rfl

theorem seen_items_nil (reached : Bool) : seen_items reached ([] : List (Doc Native)) = [] := by cases reached <;> rfl

theorem seen_entries_nil (reached : Bool) : seen_entries reached ([] : Entries Native) = [] := by cases reached <;> rfl

theorem seen_entries_cons (reached : Bool) (key : Key Native) (item : Doc Native) (entries : Entries Native) :
    seen_entries reached ((key,item) :: entries) =
      (key,if reached && credential key item then .str API_CREDENTIAL_PLACEHOLDER else seen reached item) :: seen_entries reached entries := by
  cases reached
  · rfl
  · rw [seen_entries,if_pos rfl,redact_entries]
    rfl

-- The scalars are seen as they are.
theorem seen_scalar (reached : Bool) {d : Doc Native} (alone : redact_api_credentials d = d) : seen reached d = d := by
  cases reached
  · rfl
  · exact alone

theorem prints_iff {shown : List CodeUnit} (reached : Bool) (d : Doc Native) :
    plain floats str (seen reached d) = .string shown ↔ Prints str shown d := by
  cases d with
  | list items => rw [seen_list]; simp [plain,Prints]
  | tuple items => rw [seen_tuple]; simp [plain,Prints]
  | dict entries => rw [seen_dict]; simp [plain,Prints]
  | _ => rw [seen_scalar reached rfl]; simp [plain,Prints]

mutual
theorem blurred_iff (left right : Bool) : (a b : Doc Native) →
    (plain floats str (seen left a) = plain floats str (seen right b) ↔ Blurred floats str left right a b)
  | .list items,b => by
      cases b with
      | list items' => rw [seen_list,seen_list]; simpa [plain,Blurred] using blurred_items left right items items'
      | tuple items' => rw [seen_list,seen_tuple]; simpa [plain,Blurred] using blurred_items left false items items'
      | dict entries' => rw [seen_list,seen_dict]; simp [plain,Blurred]
      | _ => rw [seen_list,seen_scalar right rfl]; simp [plain,Blurred]
  | .tuple items,b => by
      cases b with
      | list items' => rw [seen_tuple,seen_list]; simpa [plain,Blurred] using blurred_items false right items items'
      | tuple items' => rw [seen_tuple,seen_tuple]; simpa [plain,Blurred] using blurred_items false false items items'
      | dict entries' => rw [seen_tuple,seen_dict]; simp [plain,Blurred]
      | _ => rw [seen_tuple,seen_scalar right rfl]; simp [plain,Blurred]
  | .dict entries,b => by
      cases b with
      | list items' => rw [seen_dict,seen_list]; simp [plain,Blurred]
      | tuple items' => rw [seen_dict,seen_tuple]; simp [plain,Blurred]
      | dict entries' => rw [seen_dict,seen_dict]; simpa [plain,Blurred] using blurred_entries left right entries entries'
      | _ => rw [seen_dict,seen_scalar right rfl]; simp [plain,Blurred]
  | .str s,b => by
      rw [seen_scalar left rfl,plain,eq_comm,prints_iff]
      cases b <;> simp [Prints,Blurred,eq_comm]
  | .native n,b => by
      rw [seen_scalar left rfl,plain,eq_comm,prints_iff]
      cases b <;> simp [Prints,Blurred,eq_comm]
  | .none,b => by
      rw [seen_scalar left rfl]
      cases b with
      | list items' => rw [seen_list]; simp [plain,Blurred]
      | tuple items' => rw [seen_tuple]; simp [plain,Blurred]
      | dict entries' => rw [seen_dict]; simp [plain,Blurred]
      | _ => rw [seen_scalar right rfl]; simp [plain,Blurred]
  | .bool c,b => by
      rw [seen_scalar left rfl]
      cases b with
      | list items' => rw [seen_list]; simp [plain,Blurred]
      | tuple items' => rw [seen_tuple]; simp [plain,Blurred]
      | dict entries' => rw [seen_dict]; simp [plain,Blurred]
      | _ => rw [seen_scalar right rfl]; simp [plain,Blurred]
  | .int i,b => by
      rw [seen_scalar left rfl]
      cases b with
      | list items' => rw [seen_list]; simp [plain,Blurred]
      | tuple items' => rw [seen_tuple]; simp [plain,Blurred]
      | dict entries' => rw [seen_dict]; simp [plain,Blurred]
      | _ => rw [seen_scalar right rfl]; simp [plain,Blurred,int_numeral_iff,int_ne_float,int_ne_nan]
  | .nan,b => by
      rw [seen_scalar left rfl]
      cases b with
      | list items' => rw [seen_list]; simp [plain,Blurred]
      | tuple items' => rw [seen_tuple]; simp [plain,Blurred]
      | dict entries' => rw [seen_dict]; simp [plain,Blurred]
      | _ => rw [seen_scalar right rfl]; simp [plain,Blurred,int_ne_nan.symm,(float_ne_nan floats).symm]
  | .float x,b => by
      rw [seen_scalar left rfl]
      cases b with
      | list items' => rw [seen_list]; simp [plain,Blurred]
      | tuple items' => rw [seen_tuple]; simp [plain,Blurred]
      | dict entries' => rw [seen_dict]; simp [plain,Blurred]
      | _ => rw [seen_scalar right rfl]; simp [plain,Blurred,float_numeral_iff,(int_ne_float floats).symm,float_ne_nan]
theorem blurred_items (left right : Bool) : (items items' : List (Doc Native)) →
    (plain_items floats str (seen_items left items) = plain_items floats str (seen_items right items') ↔
      BlurredItems floats str left right items items')
  | [],items' => by
      cases items' with
      | nil => simp [seen_items_nil,BlurredItems]
      | cons item' items' => rw [seen_items_nil,seen_items_cons]; simp [plain_items,BlurredItems]
  | item :: items,items' => by
      cases items' with
      | nil => rw [seen_items_nil,seen_items_cons]; simp [plain_items,BlurredItems]
      | cons item' items' =>
          rw [seen_items_cons,seen_items_cons,plain_items,plain_items,List.cons.injEq,blurred_iff left right item item',
            blurred_items left right items items',BlurredItems]
theorem blurred_entries (left right : Bool) : (entries entries' : Entries Native) →
    (plain_entries floats str (seen_entries left entries) = plain_entries floats str (seen_entries right entries') ↔
      BlurredEntries floats str left right entries entries')
  | [],entries' => by
      cases entries' with
      | nil => simp [seen_entries_nil,BlurredEntries]
      | cons entry' entries' =>
          obtain ⟨key',item'⟩ := entry'
          rw [seen_entries_nil,seen_entries_cons]; simp [plain_entries,BlurredEntries]
  | (key,item) :: entries,entries' => by
      cases entries' with
      | nil => rw [seen_entries_nil,seen_entries_cons]; simp [plain_entries,BlurredEntries]
      | cons entry' entries' =>
          obtain ⟨key',item'⟩ := entry'
          have later := blurred_entries left right entries entries'
          rw [seen_entries_cons,seen_entries_cons,plain_entries,plain_entries,List.cons.injEq,Prod.mk.injEq,later,BlurredEntries,and_assoc]
          refine and_congr_right fun _ => and_congr_left fun _ => ?_
          split
          · split
            · exact iff_of_true rfl trivial
            · rw [plain,eq_comm,prints_iff]
          · split
            · exact prints_iff left item
            · exact blurred_iff left right item item'
end

end

section
variable (floats : FloatText) {Native : Type} (str : Native → Text)

-- What is written around the document.
def wrapper (workflow_format : Text) (workflow : Json) : Json :=
  .object [(units (text "format"),.string (units workflow_format)),(units (text "workflow"),workflow)]

end

section
variable {floats : FloatText} {Native : Type} {str : Native → Text} {Digest : Type} {digest : List Char → Digest}

theorem sorted_payload {β : Type} (a b : β) :
    sort_items [((.str (text "format") : Key Native),a),(.str (text "workflow"),b)] =
      some [(.str (text "format"),a),(.str (text "workflow"),b)] := by
  have before : text_le (text "format") (text "workflow") = true := by decide
  simp [sort_items,Key.is_text,Key.le,before]

theorem hash_arranged (d : Doc Native) (workflow_format : Text) :
    workflow_template_hash floats str digest d workflow_format =
      (arranged d).map fun a => digest (write (wrapper workflow_format (plain floats str (seen true a)))) := by
  rw [workflow_template_hash,encode_arranged,arranged,arranged_entries,arranged_entries,arranged_redact]
  cases arranged d with
  | none => rfl
  | some a =>
      simp only [arranged,arranged_entries,Option.map_some,Option.bind_eq_bind,Option.bind_some,Option.pure_def,sorted_payload]
      rfl

end

section
variable {floats : FloatText} {Native : Type} [DecidableEq Native] {str : Native → Text} {Digest : Type} {digest : List Char → Digest}

def Same (d d' : Doc Native) : Prop := ∃ a b, arranged d = some a ∧ arranged d' = some b ∧ Alike .other a b

-- Both documents have a hash, and one just where they differ in no more than credentials.
def Identified (floats : FloatText) (str : Native → Text) (digest : List Char → Digest) (workflow_format : Text) (d d' : Doc Native) : Prop :=
  ∃ h h', workflow_template_hash floats str digest d workflow_format = some h ∧
    workflow_template_hash floats str digest d' workflow_format = some h' ∧ (h = h' ↔ Same d d')

theorem wrapper_injective {workflow_format : Text} {j j' : Json} (same : wrapper workflow_format j = wrapper workflow_format j') : j = j' := by
  simpa [wrapper] using same

-- The hash tells two documents apart as it should just where what it blurs is the credentials.
theorem identified_iff (collision_free : Function.Injective digest) (workflow_format : Text) (d d' : Doc Native) :
    Identified floats str digest workflow_format d d' ↔
      ∃ a b, arranged d = some a ∧ arranged d' = some b ∧ (Blurred floats str true true a b ↔ Alike .other a b) := by
  unfold Identified
  rw [hash_arranged,hash_arranged]
  have hashes (a b : Doc Native) : digest (write (wrapper workflow_format (plain floats str (seen true a)))) =
      digest (write (wrapper workflow_format (plain floats str (seen true b)))) ↔ Blurred floats str true true a b := by
    rw [← blurred_iff true true a b]
    exact ⟨fun same => wrapper_injective (write_injective (collision_free same)),fun same => same ▸ rfl⟩
  constructor
  · rintro ⟨h,h',first,second,identified⟩
    obtain ⟨a,known,rfl⟩ := Option.map_eq_some_iff.mp first
    obtain ⟨b,known',rfl⟩ := Option.map_eq_some_iff.mp second
    refine ⟨a,b,known,known',(hashes a b).symm.trans (identified.trans ?_)⟩
    constructor
    · rintro ⟨x,y,one,two,alike⟩
      cases known.symm.trans one
      cases known'.symm.trans two
      exact alike
    · exact fun alike => ⟨a,b,known,known',alike⟩
  · rintro ⟨a,b,known,known',exact_here⟩
    refine ⟨_,_,congrArg (Option.map _) known,congrArg (Option.map _) known',(hashes a b).trans (exact_here.trans ?_)⟩
    constructor
    · exact fun alike => ⟨a,b,known,known',alike⟩
    · rintro ⟨x,y,one,two,alike⟩
      cases known.symm.trans one
      cases known'.symm.trans two
      exact alike

def surrogate (c : CodePoint) : Bool := decide (0xd800 ≤ c.val ∧ c.val ≤ 0xdfff)

def Unpaired (s : Text) : Prop := ∀ c ∈ s, surrogate c = false

-- A text that has no surrogates of its own.
theorem unpaired_text (s : String) : Unpaired (text s) := by
  intro point member
  obtain ⟨c,_,rfl⟩ := List.mem_map.mp member
  have valid : c.toNat < 0xd800 ∨ 0xdfff < c.toNat ∧ c.toNat < 0x110000 := c.valid
  simp only [surrogate,decide_eq_false_iff_not,Fin.val_ofNat]
  omega

theorem units_of_unique {c d : CodePoint} {rest rest' : List CodeUnit} (plain : surrogate c = false) (plain' : surrogate d = false)
    (same : units_of c ++ rest = units_of d ++ rest') : c = d ∧ rest = rest' := by
  have low := c.isLt
  have low' := d.isLt
  simp only [surrogate,decide_eq_false_iff_not] at plain plain'
  unfold units_of at same
  split at same
  · split at same
    · simp only [List.singleton_append,List.cons.injEq,Fin.ext_iff,Fin.val_ofNat] at same
      exact ⟨Fin.ext (by omega),same.2⟩
    · simp only [List.cons_append,List.cons.injEq,Fin.ext_iff,Fin.val_ofNat] at same
      omega
  · split at same
    · simp only [List.cons_append,List.cons.injEq,Fin.ext_iff,Fin.val_ofNat] at same
      omega
    · simp only [List.cons_append,List.nil_append,List.cons.injEq,Fin.ext_iff,Fin.val_ofNat] at same
      exact ⟨Fin.ext (by omega),same.2.2⟩

theorem units_injective {s t : Text} (plain : Unpaired s) (plain' : Unpaired t) (same : units s = units t) : s = t := by
  have nonempty (c : CodePoint) : units_of c ≠ [] := by
    unfold units_of
    split <;> exact List.cons_ne_nil _ _
  induction s generalizing t with
  | nil =>
      cases t with
      | nil => rfl
      | cons d t => exact absurd (List.append_eq_nil_iff.mp same.symm).1 (nonempty d)
  | cons c s ih =>
      cases t with
      | nil => exact absurd (List.append_eq_nil_iff.mp same).1 (nonempty c)
      | cons d t =>
          obtain ⟨rfl,later⟩ := units_of_unique (plain c List.mem_cons_self) (plain' d List.mem_cons_self) same
          rw [ih (fun x member => plain x (List.mem_cons_of_mem _ member)) (fun x member => plain' x (List.mem_cons_of_mem _ member)) later]

-- A document of JSON values whose keys are texts and whose strings under `authorization`
-- are credentials.
mutual
def Regular (place : Place) : Doc Native → Prop
  | .str s => Unpaired s
  | .native _ => False
  | .tuple _ => False
  | .list items => RegularItems items
  | .dict entries => RegularEntries place entries
  | _ => True
def RegularItems : List (Doc Native) → Prop
  | [] => True
  | item :: items => Regular .other item ∧ RegularItems items
def RegularEntries (place : Place) : Entries Native → Prop
  | [] => True
  | (key,item) :: entries =>
    (∃ s, key = .str s ∧ Unpaired s) ∧ (credential key item = true → place = .api) ∧ Regular (place.under key) item ∧
      RegularEntries place entries
end

omit [DecidableEq Native] in
theorem credential_iff {key : Key Native} {item : Doc Native} :
    credential key item = true ↔ key = .str AUTHORIZATION ∧ ∃ value, item = .str value := by
  cases key with
  | str s => cases item <;> simp [credential]
  | _ => cases item <;> simp [credential]

theorem alike_str {place : Place} {item item' : Doc Native} (alike : Alike place item item') :
    (∃ value, item = .str value) ↔ ∃ value, item' = .str value := by
  cases item <;> cases item' <;> first | exact absurd alike id | simp

theorem regular_not_native {place : Place} {d : Doc Native} (regular : Regular place d) {shown : List CodeUnit} (prints : Prints str shown d) :
    ∃ s, d = .str s := by
  cases d with
  | str s => exact ⟨s,rfl⟩
  | native n => exact absurd regular id
  | _ => exact absurd prints id

mutual
theorem regular_iff (place : Place) : (a b : Doc Native) → Regular place a → Regular place b →
    (Blurred floats str true true a b ↔ Alike place a b)
  | .none,b,_,_ => by cases b <;> simp [Blurred,Alike]
  | .bool _,b,_,_ => by cases b <;> simp [Blurred,Alike]
  | .int _,b,_,_ => by cases b <;> simp [Blurred,Alike]
  | .nan,b,_,_ => by cases b <;> simp [Blurred,Alike]
  | .float _,b,_,_ => by cases b <;> simp [Blurred,Alike]
  | .native _,_,regular,_ => absurd regular id
  | .tuple _,_,regular,_ => absurd regular id
  | .str s,b,regular,regular' => by
      cases b with
      | str t => exact ⟨fun same => units_injective regular regular' same,fun same => congrArg units same⟩
      | native n => exact absurd regular' id
      | _ => exact Iff.rfl
  | .list items,b,regular,regular' => by
      cases b with
      | list items' => exact regular_items items items' regular regular'
      | tuple items' => exact absurd regular' id
      | _ => exact Iff.rfl
  | .dict entries,b,regular,regular' => by
      cases b with
      | dict entries' => exact regular_entries place entries entries' regular regular'
      | _ => exact Iff.rfl
theorem regular_items : (items items' : List (Doc Native)) → RegularItems items → RegularItems items' →
    (BlurredItems floats str true true items items' ↔ AlikeItems items items')
  | [],items',_,_ => by cases items' <;> simp [BlurredItems,AlikeItems]
  | item :: items,items',regular,regular' => by
      cases items' with
      | nil => simp [BlurredItems,AlikeItems]
      | cons item' items' =>
          exact and_congr (regular_iff .other item item' regular.1 regular'.1) (regular_items items items' regular.2 regular'.2)
theorem regular_entries (place : Place) : (entries entries' : Entries Native) → RegularEntries place entries → RegularEntries place entries' →
    (BlurredEntries floats str true true entries entries' ↔ AlikeEntries place entries entries')
  | [],entries',_,_ => by cases entries' <;> simp [BlurredEntries,AlikeEntries]
  | (key,item) :: entries,entries',regular,regular' => by
      cases entries' with
      | nil => simp [BlurredEntries,AlikeEntries]
      | cons entry' entries' =>
          obtain ⟨key',item'⟩ := entry'
          obtain ⟨⟨s,rfl,plain⟩,placed,inside,rest⟩ := regular
          obtain ⟨⟨t,rfl,plain'⟩,placed',inside',rest'⟩ := regular'
          have later := regular_entries place entries entries' rest rest'
          have keys : key_text floats (.str s : Key Native) = key_text floats (.str t : Key Native) ↔ (.str s : Key Native) = .str t := by
            constructor
            · exact fun same => congrArg Key.str (units_injective plain plain' same)
            · exact fun same => same ▸ rfl
          rw [BlurredEntries,AlikeEntries,keys,later]
          refine and_congr_right fun same => and_congr_left fun _ => ?_
          cases same
          have value := regular_iff (place.under (.str s)) item item' inside inside'
          simp only [Bool.true_and]
          -- A value that is hidden on one side alone is a string on that side alone.
          have one_sided {x y : Doc Native} (hidden : credential (.str s) x = true) (shown : credential (.str s) y = false) :
              ¬ ∃ value, y = .str value := by
            intro string
            rw [credential_iff.mpr ⟨(credential_iff.mp hidden).1,string⟩] at shown
            cases shown
          cases hidden : credential (.str s) item with
          | true =>
              cases hidden' : credential (.str s) item' with
              | true => simp [placed hidden]
              | false =>
                  have plain_item := one_sided hidden hidden'
                  simp only [if_true,Bool.false_eq_true,if_false,and_false,false_or]
                  refine iff_of_false (fun prints => plain_item (regular_not_native inside' prints)) (fun alike => plain_item ?_)
                  exact (alike_str alike).mp (credential_iff.mp hidden).2
          | false =>
              cases hidden' : credential (.str s) item' with
              | true =>
                  have plain_item := one_sided hidden' hidden
                  simp only [if_true,Bool.false_eq_true,if_false,false_and,and_false,false_or]
                  refine iff_of_false (fun prints => plain_item (regular_not_native inside prints)) (fun alike => plain_item ?_)
                  exact (alike_str alike).mpr (credential_iff.mp hidden').2
              | false => simpa using value
end

theorem regular_entries_iff {place : Place} (entries : Entries Native) :
    RegularEntries place entries ↔ ∀ e ∈ entries, (∃ s, e.1 = .str s ∧ Unpaired s) ∧ (credential e.1 e.2 = true → place = .api) ∧
      Regular (place.under e.1) e.2 := by
  induction entries with
  | nil => simp [RegularEntries]
  | cons e rest ih => rw [RegularEntries,ih,List.forall_mem_cons,and_assoc,and_assoc]

-- A regular document has a hash.
mutual
theorem arranged_regular {place : Place} : (d : Doc Native) → Regular place d → ∃ a, arranged d = some a ∧ Regular place a
  | .none,_ => ⟨.none,rfl,trivial⟩
  | .bool b,_ => ⟨.bool b,rfl,trivial⟩
  | .int i,_ => ⟨.int i,rfl,trivial⟩
  | .nan,_ => ⟨.nan,rfl,trivial⟩
  | .float x,_ => ⟨.float x,rfl,trivial⟩
  | .str s,regular => ⟨.str s,rfl,regular⟩
  | .native _,regular => absurd regular id
  | .tuple _,regular => absurd regular id
  | .list items,regular => by
      obtain ⟨items',known,inside⟩ := arranged_regular_items items regular
      exact ⟨.list items',by rw [arranged,known]; rfl,inside⟩
  | .dict entries,regular => by
      obtain ⟨entries',known,inside⟩ := arranged_regular_entries entries regular
      have each := (regular_entries_iff entries').mp inside
      have texts : entries'.all (fun e => e.1.is_text) = true := by
        refine List.all_eq_true.mpr fun e member => ?_
        obtain ⟨s,key,_⟩ := (each e member).1
        rw [key]
        rfl
      have writable : (entries'.insertionSort fun a b => a.1.le b.1 = true).all (fun e => e.1.writable) = true := by
        refine List.all_eq_true.mpr fun e member => ?_
        obtain ⟨s,key,_⟩ := (each e ((List.mem_insertionSort _).mp member)).1
        rw [key]
        rfl
      refine ⟨.dict (entries'.insertionSort fun a b => a.1.le b.1 = true),?_,?_⟩
      · simp only [arranged,known,Option.bind_eq_bind,Option.bind_some,sort_items,texts,Bool.true_or,if_true,writable]
      · exact (regular_entries_iff _).mpr fun e member => each e ((List.mem_insertionSort _).mp member)
theorem arranged_regular_items : (items : List (Doc Native)) → RegularItems items →
    ∃ items', arranged_items items = some items' ∧ RegularItems items'
  | [],_ => ⟨[],rfl,trivial⟩
  | item :: items,regular => by
      obtain ⟨first,known,inside⟩ := arranged_regular item regular.1
      obtain ⟨later,knownLater,rest⟩ := arranged_regular_items items regular.2
      exact ⟨first :: later,by rw [arranged_items,known,knownLater]; rfl,inside,rest⟩
theorem arranged_regular_entries {place : Place} : (entries : Entries Native) → RegularEntries place entries →
    ∃ entries', arranged_entries entries = some entries' ∧ RegularEntries place entries'
  | [],_ => ⟨[],rfl,trivial⟩
  | (key,item) :: entries,regular => by
      obtain ⟨text,placed,inside,rest⟩ := regular
      obtain ⟨first,known,regularFirst⟩ := arranged_regular item inside
      obtain ⟨later,knownLater,regularLater⟩ := arranged_regular_entries entries rest
      refine ⟨(key,first) :: later,by rw [arranged_entries,known,knownLater]; rfl,text,?_,regularFirst,regularLater⟩
      rw [credential_arranged known]
      exact placed
end

end

-- An exact text for every fraction: its numerator and its denominator.
def fraction (q : Rat) : List Char := int_text q.num ++ '.' :: Nat.toDigits 10 q.den

theorem int_text_chars (i : Int) : ∀ c ∈ int_text i, c.isDigit = true ∨ c = '-' := by
  intro c member
  cases i with
  | ofNat n => exact .inl (nat_digits n c member)
  | negSucc n => exact (List.mem_cons.mp member).symm.imp (nat_digits _ c) id

def fractions : FloatText where
  repr := fraction
  distinct q r same := by
    have clean (i : Int) : '.' ∉ int_text i := fun member => int_text_unmarked i '.' member (.inl rfl)
    obtain ⟨num,den⟩ := Separators.front_of (clean q.num) (clean r.num) same
    refine Rat.ext (int_text_injective num) ?_
    have digits : Nat.toDigits 10 q.den = Nat.toDigits 10 r.den := den
    rw [← Nat.ofDigitChars_ten_toDigits (n := q.den),digits,Nat.ofDigitChars_ten_toDigits]
  chars q c member := by
    rcases List.mem_append.mp member with num | den
    · exact (int_text_chars q.num c num).imp_right fun (minus : c = '-') => by rw [minus]; decide
    · rcases List.mem_cons.mp den with rfl | den
      · exact .inr (by decide)
      · exact .inl (nat_digits _ c den)
  first q := by
    cases num : int_text q.num with
    | nil =>
        obtain ⟨c,rest,shape,_⟩ := (int_numeral q.num).first
        exact absurd ((show int_text q.num = c :: rest from shape).symm.trans num) (List.cons_ne_nil _ _)
    | cons c rest =>
        refine ⟨c,_,by rw [fraction,num]; rfl,int_text_chars q.num c (num ▸ List.mem_cons_self)⟩
  pointed q := .inl (List.mem_append_right _ List.mem_cons_self)
  signed q same := by
    have clean : '.' ∉ int_text q.num := fun member => int_text_unmarked q.num '.' member (.inl rfl)
    have clean' : '.' ∉ ['-','0'] := by decide
    have split : int_text q.num ++ '.' :: Nat.toDigits 10 q.den = ['-','0'] ++ '.' :: ['0'] :=
      same.trans (by decide : "-0.0".toList = ['-','0','.','0'])
    obtain ⟨_,den⟩ := Separators.front_of clean clean' split
    have digits : Nat.toDigits 10 q.den = Nat.toDigits 10 0 := den
    have zero : q.den = 0 := by rw [← Nat.ofDigitChars_ten_toDigits (n := q.den),digits,Nat.ofDigitChars_ten_toDigits]
    exact q.den_nz zero

def no_natives (n : Empty) : Text := nomatch n

-- An operation with its credential, and a header of the same name.
def chat_op (model secret : String) : Doc Empty :=
  .dict [(.str (text "config"),.dict [(.str (text "model"),.str (text model)),
    (.str (text "api"),.dict [(.str AUTHORIZATION,.str (text secret))])])]

def header_op (value : String) : Doc Empty := .dict [(.str (text "headers"),.dict [(.str AUTHORIZATION,.str (text value))])]

theorem chat_op_regular (model secret : String) : Regular .other (chat_op model secret) := by
  have model_key : text "model" ≠ AUTHORIZATION := by decide
  have apart : credential (.str (text "model") : Key Empty) (.str (text model)) = false := decide_eq_false model_key
  refine ⟨⟨_,rfl,unpaired_text _⟩,(fun shown => nomatch shown),?_,trivial⟩
  refine ⟨⟨_,rfl,unpaired_text _⟩,fun shown => ?_,unpaired_text _,⟨_,rfl,unpaired_text _⟩,(fun shown => nomatch shown),?_,trivial⟩
  · rw [apart] at shown
    cases shown
  · exact ⟨⟨_,rfl,unpaired_text _⟩,fun _ => by decide,unpaired_text _,trivial⟩

theorem identified_chat_ops : Identified fractions no_natives id (text "yaml") (chat_op "a" "s") (chat_op "a" "t") := by
  obtain ⟨a,known,regular⟩ := arranged_regular (chat_op "a" "s") (chat_op_regular "a" "s")
  obtain ⟨b,known',regular'⟩ := arranged_regular (chat_op "a" "t") (chat_op_regular "a" "t")
  exact (identified_iff (fun _ _ same => same) (text "yaml") _ _).mpr ⟨a,b,known,known',regular_iff .other a b regular regular'⟩

-- A header of that name is passed over like a credential.
theorem header_value_lost : ¬ ∀ (floats : FloatText) (Native : Type) [DecidableEq Native] (str : Native → Text) (Digest : Type)
    (digest : List Char → Digest) (workflow_format : Text) (d d' : Doc Native), Function.Injective digest →
    Identified floats str digest workflow_format d d' := by
  intro every
  obtain ⟨h,h',first,second,identified⟩ := every fractions Empty no_natives (List Char) id (text "yaml") (header_op "a") (header_op "b")
    fun _ _ same => same
  have redacted : redact_api_credentials (header_op "a") = redact_api_credentials (header_op "b") := by rfl
  have same : h = h' := by
    rw [workflow_template_hash,redacted] at first
    exact Option.some.inj (first.symm.trans second)
  obtain ⟨a,b,known,known',alike⟩ := identified.mp same
  cases known
  cases known'
  have values : text "a" ≠ text "b" := by decide
  obtain ⟨_,below,_⟩ := alike
  rcases below with ⟨place,_⟩ | below
  · cases place
  · obtain ⟨_,inner,_⟩ := below
    rcases inner with ⟨place,_⟩ | inner
    · exact absurd place (by decide)
    · exact values inner

end Lumilake.TemplateHash
