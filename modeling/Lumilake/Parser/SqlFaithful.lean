import Lumilake.Parser.SqlBinding

namespace Lumilake.Parser.N8n
open Ops Optimizer Fallible Braces

def WordLabels (values : Text → Option Payload) : Prop :=
  ∀ label p, values label = some p → ∀ c ∈ label, c.isAlphanum = true ∨ c = '_'

-- At its place a value is taken for its own reference or for a literal.
def Fits (letters : Letters) (known : Known) (values : Text → Option Payload) (place : Text × Value) : Prop :=
  match refers letters place.2 with
  | some r => values place.1 = some (own_payload known r)
  | none => mistaken letters place.2 = false

theorem label_chars (column operator : String) : ∀ c ∈ sql_param_label column operator, c.isAlphanum = true ∨ c = '_' := by
  have cleaned : ∀ c ∈ Regex.sub (.one fun c => !(c.isAlphanum || c = '_')) (fun _ => []) column.toList, c.isAlphanum = true ∨ c = '_' := by
    intro c member
    rcases Regex.mem_sub member with ⟨m,replaced⟩ | ⟨rest,unmatched⟩
    · cases replaced
    · have kept := Regex.unmatched_one unmatched
      rw [Bool.not_eq_false',Bool.or_eq_true,decide_eq_true_eq] at kept
      exact kept
  have named : ∀ c ∈ "value".toList, c.isAlphanum = true ∨ c = '_' :=
    List.forall_iff_forall_mem.mp (by decide)
  have bound : ∀ c ∈ "Min".toList ++ "Max".toList, c.isAlphanum = true ∨ c = '_' :=
    List.forall_iff_forall_mem.mp (by decide)
  intro c member
  unfold sql_param_label at member
  simp only at member
  have front : ∀ c ∈ (if Regex.sub (.one fun c => !(c.isAlphanum || c = '_')) (fun _ => []) column.toList = [] then "value".toList
      else Regex.sub (.one fun c => !(c.isAlphanum || c = '_')) (fun _ => []) column.toList), c.isAlphanum = true ∨ c = '_' := by
    intro c member
    split at member
    · exact named c member
    · exact cleaned c member
  split at member
  · rcases List.mem_append.mp member with among | last
    · exact front c among
    · exact bound c (List.mem_append_left _ last)
  · split at member
    · rcases List.mem_append.mp member with among | last
      · exact front c among
      · exact bound c (List.mem_append_right _ last)
    · exact front c member

section
variable {values : Text → Option Payload} (words : WordLabels values)
include words

theorem braceless_of_words : ∀ label p, values label = some p → Braceless label := by
  intro label p known
  constructor
  · intro inside
    rcases words label p known _ inside with letter | under
    · exact absurd letter (by decide)
    · exact absurd under (by decide)
  · intro inside
    rcases words label p known _ inside with letter | under
    · exact absurd letter (by decide)
    · exact absurd under (by decide)

theorem apart_of_words {c : Char} (other : c.isAlphanum = false) (no_mark : c ≠ '_') (open_end : c ≠ '}') (rest : Text) :
    Apart values (c :: rest) := by
  intro d head
  cases head
  refine ⟨open_end,fun label p known inside => ?_⟩
  rcases words label p known _ inside with letter | under
  · rw [other] at letter; cases letter
  · exact no_mark under

theorem apart_space (rest : Text) : Apart values (' ' :: rest) := apart_of_words words (by decide) (by decide) (by decide) rest

-- A text of the query comes out as it is when no known label is in it.
theorem piece_iff {text rest : Text} {Y : List (Segment Payload)} (apart : Apart values rest) :
    fill values (text ++ rest) = chars text ++ Y ↔ Clean values text ∧ fill values rest = Y := by
  rw [fill_append apart,text_iff (braceless_of_words words)]

theorem spaced_iff {text rest : Text} {Y : List (Segment Payload)} :
    fill values (text ++ ' ' :: rest) = chars text ++ .char ' ' :: Y ↔ Clean values text ∧ fill values rest = Y := by
  rw [piece_iff words (apart_space words _),fill_cons (by decide)]
  simp

theorem items_iff {python : Python} {items : List Value} {rest : Text} {Y : List (Segment Payload)} :
    fill values ('(' :: [',',' '].intercalate (items.map (own_literal python)) ++ [')'] ++ rest) = own_items python items ++ Y ↔
      (∀ piece ∈ items.map (own_literal python), Clean values piece) ∧ fill values rest = Y := by
  have closes : Apart values (')' :: rest) := apart_of_words words (by decide) (by decide) (by decide) rest
  have each : ∀ item ∈ items, ∀ rest Y, Apart values rest → (fill values (own_literal python item ++ rest) =
      chars (own_literal python item) ++ Y ↔ Clean values (own_literal python item) ∧ fill values rest = Y) :=
    fun item _ rest Y apart => piece_iff words apart
  have comma : '{' ∉ [',',' '] := by decide
  have joined := joined_iff comma (fun rest => apart_of_words words (by decide) (by decide) (by decide) _) each (Y := .char ')' :: Y) closes
  have text : '(' :: [',',' '].intercalate (items.map (own_literal python)) ++ [')'] ++ rest =
      '(' :: ([',',' '].intercalate (items.map (own_literal python)) ++ ')' :: rest) := by simp
  have own : own_items python items ++ Y =
      .char '(' :: ((chars [',',' ']).intercalate (items.map fun item => chars (own_literal python item)) ++ .char ')' :: Y) := by
    simp [own_items]
  rw [text,own,fill_cons (by decide),List.cons.injEq,joined,fill_cons (by decide)]
  simp

end

theorem sql_literal_own (python : Python) (value : Value) : sql_literal python value = own_literal python value := by
  cases value <;> simp [sql_literal,own_literal,Quoting.quoted,Quoting.doubled,replace_one]

-- A literal text is read back from the query as it was given.
theorem sql_literal_reads (python : Python) (text : String) {rest : Text} (ends : ∀ c ∈ rest.head?, c ≠ '\'') :
    Quoting.read_quoted '\'' (sql_literal python (.str text) ++ rest) = some (text.toList,rest) := by
  rw [sql_literal_own]
  exact Quoting.read_quoted_quoted text.toList ends

section
variable {letters : Letters} {python : Python} {known : Known} {values : Text → Option Payload} (words : WordLabels values)
include words

theorem literal_iff {value : Value} {rest : Text} {Y : List (Segment Payload)} (unnamed : refers letters value = none)
    (apart : Apart values rest) : fill values (literal_text python value ++ rest) = own_value letters python known value ++ Y ↔
      (∀ piece ∈ literal_pieces letters python value, Clean values piece) ∧ fill values rest = Y := by
  have plain : fill values (sql_literal python value ++ rest) = chars (own_literal python value) ++ Y ↔
      (∀ piece ∈ [own_literal python value], Clean values piece) ∧ fill values rest = Y := by
    rw [sql_literal_own,piece_iff words apart]
    simp
  cases value with
  | list items =>
      simp only [literal_text,own_value,literal_pieces,unnamed,funext (sql_literal_own python)]
      exact items_iff words
  | tuple items =>
      simp only [literal_text,own_value,literal_pieces,unnamed,funext (sql_literal_own python)]
      exact items_iff words
  | none | bool _ | int _ | float _ | str _ | dict _ =>
      simp only [literal_text,own_value,literal_pieces,unnamed]
      exact plain

theorem tail_iff {label : Text} {value : Value} {rest : Text} {Y : List (Segment Payload)} (taken : Taken letters known value)
    (held : ∀ p, payload_at letters known value = some p → ∃ q, values label = some q) (apart : Apart values rest) :
    fill values (clause_tail letters python known label value ++ rest) = own_value letters python known value ++ Y ↔
      ((∀ piece ∈ literal_pieces letters python value, Clean values piece) ∧ Fits letters known values (label,value)) ∧
        fill values rest = Y := by
  have slotted : ∀ p q, payload_at letters known value = some p → values label = some q →
      fill values (clause_tail letters python known label value ++ rest) = .char '\'' :: .value q :: .char '\'' :: fill values rest := by
    intro p q payload there
    have split : clause_tail letters python known label value ++ rest = '\'' :: (slot label ++ '\'' :: rest) := by
      simp [clause_tail,payload]
    rw [split,fill_cons (by decide),fill_slot (braceless_of_words words label q there) there,fill_cons (by decide)]
  cases names : refers letters value with
  | some r =>
      obtain ⟨p,payload,_⟩ := referenced_of_reference names taken.resolves taken.takes
      obtain ⟨q,there⟩ := held p payload
      rw [slotted p q payload there]
      have pieces : literal_pieces letters python value = [] := by simp [literal_pieces,names]
      have own : own_value letters python known value = [.char '\'',.value (own_payload known r),.char '\''] := by
        simp [own_value,names]
      simp [pieces,own,Fits,names,there]
  | none =>
      obtain ⟨same,payload⟩ := referenced_of_literal names taken.resolves taken.takes
      have fits : Fits letters known values (label,value) ↔ mistaken letters value = false := by simp [Fits,names]
      rw [fits]
      cases wrong : mistaken letters value with
      | false =>
          have nothing : payload_at letters known value = none := by
            rw [wrong] at payload
            exact Option.isSome_eq_false_iff.mp payload |> Option.isNone_iff_eq_none.mp
          have text : clause_tail letters python known label value = literal_text python value := by
            simp only [clause_tail,nothing,same]
          rw [text,literal_iff words names apart]
          simp
      | true =>
          rw [wrong] at payload
          obtain ⟨p,payload⟩ := Option.isSome_iff_exists.mp payload
          obtain ⟨q,there⟩ := held p payload
          rw [slotted p q payload there]
          cases value with
          | str text =>
              have own : own_value letters python known (.str text) =
                  .char '\'' :: (chars (Quoting.doubled '\'' text.toList) ++ [.char '\'']) := by
                simp [own_value,names,own_literal,Quoting.quoted,chars]
              rw [own]
              constructor
              · intro equal
                have inner := (List.cons.inj equal).2
                cases doubled : Quoting.doubled '\'' text.toList with
                | nil => rw [doubled] at inner; cases (List.cons.inj inner).1
                | cons d ds => rw [doubled] at inner; cases (List.cons.inj inner).1
              · intro both
                cases both.1.2
          | none | bool _ | int _ | float _ | list _ | tuple _ | dict _ => cases wrong

theorem clause_iff {filter : Filter} {rest : Text} {Y : List (Segment Payload)} (taken : Taken letters known filter.value)
    (held : ∀ p, payload_at letters known filter.value = some p → ∃ q, values (filter_place filter).1 = some q) (apart : Apart values rest) :
    fill values (clause_text letters python known filter ++ rest) = own_clause letters python known filter ++ Y ↔
      (Clean values (quote_column_ref letters filter.column) ∧ Clean values filter.op.toList ∧
        (∀ piece ∈ literal_pieces letters python filter.value, Clean values piece) ∧ Fits letters known values (filter_place filter)) ∧
      fill values rest = Y := by
  have text : clause_text letters python known filter ++ rest = quote_column_ref letters filter.column ++ ' ' ::
      (filter.op.toList ++ ' ' :: (clause_tail letters python known (filter_place filter).1 filter.value ++ rest)) := by
    simp [clause_text,filter_place]
  have own : own_clause letters python known filter ++ Y = chars (quote_column_ref letters filter.column) ++ .char ' ' ::
      (chars filter.op.toList ++ .char ' ' :: (own_value letters python known filter.value ++ Y)) := by
    simp [own_clause]
  rw [text,own,spaced_iff words,spaced_iff words,tail_iff words taken held apart]
  simp only [and_assoc]
  exact Iff.rfl

end

theorem op_id_mark {text : String} (known : is_op_id text = true) : '_' ∈ text.toList := by
  obtain ⟨front,member,begins⟩ := List.any_eq_true.mp known
  have inside : '_' ∈ front.toList := by
    have each : ∀ front ∈ op_id_fronts, '_' ∈ front.toList := by decide
    exact each front member
  exact (List.isPrefixOf_iff_prefix.mp begins).subset inside

theorem digits_mark {letters : Letters} {text : String} {c : Char} (digits : is_digits letters text = true) (ascii : c.toNat < 128)
    (other : c.isDigit = false) : c ∉ text.toList := by
  intro member
  rw [is_digits,Bool.and_eq_true,List.all_eq_true] at digits
  have digit := digits.2 c member
  rw [letters.ascii_digit c ascii,other] at digit
  cases digit

section
variable {letters : Letters} {python : Python} {known : Known}

-- A limit is left out, is a number, or is taken for a reference.
theorem normalize_limit_cases (python : Python) {limit : Value} {node_name : String} {extra : List String} {found : Limit}
    (done : normalize_limit letters known limit node_name = .ok (found,extra)) :
    (found = .none ∧ own_limit letters python known limit = [] ∧ limit_places limit = []) ∨
    (∃ n, found = .int n ∧ own_limit letters python known limit = chars (" LIMIT ".toList ++ int_text n) ∧
      ∀ place ∈ limit_places limit, refers letters place.2 = none ∧ mistaken letters place.2 = false ∧ Taken letters known place.2) ∨
    ∃ text token, limit = .str text ∧ strip text ≠ "" ∧ found = .text token ∧
      resolve_value letters known (.str (strip text)) = .ok (.str token) ∧ starts REF_TOKEN_PREFIX token = true := by
  cases limit with
  | none =>
      cases done
      exact .inl ⟨rfl,rfl,rfl⟩
  | int n =>
      cases done
      exact .inr (.inl ⟨n,rfl,rfl,fun _ member => absurd member List.not_mem_nil⟩)
  | str text =>
      simp only [normalize_limit] at done
      by_cases blank : strip text = ""
      · rw [if_pos blank] at done
        cases done
        refine .inl ⟨rfl,?_,?_⟩
        · simp only [own_limit,if_pos blank]
        · simp only [limit_places,if_pos blank]
      · rw [if_neg blank] at done
        obtain ⟨resolved_value,resolves,done⟩ := bind_ok done
        cases resolved_value with
        | str token =>
            simp only at done
            by_cases begins : starts REF_TOKEN_PREFIX token = true
            · rw [if_pos begins] at done
              obtain ⟨pair,_,same⟩ := map_ok done
              cases same
              exact .inr (.inr ⟨text,token,rfl,blank,rfl,resolves,begins⟩)
            · rw [if_neg begins] at done
              have number : ∃ n, found = .int n ∧ is_digits letters (strip text) = true ∧
                  read_int letters (strip text) = .ok n ∧ token = strip text ∧ refers letters (.str (strip text)) = none := by
                cases names : refers letters (.str (strip text)) with
                | none =>
                    have details : extract_ref_details letters (strip_expr (strip text)) = [] := List.head?_eq_none_iff.mp names
                    simp only [resolve_value,details] at resolves
                    cases resolves
                    split at done
                    · rename_i digits
                      obtain ⟨n,read,same⟩ := map_ok done
                      cases same
                      exact ⟨n,rfl,digits,read,rfl,rfl⟩
                    · cases done
                | some r =>
                    have mark := reference_mark (show (extract_ref_details letters (strip_expr (strip text))).head? = some r from names)
                    have made : is_op_id token = true := by
                      simp only [refers] at names
                      simp only [resolve_value] at resolves
                      cases details : extract_ref_details letters (strip_expr (strip text)) with
                      | nil => rw [details] at names; cases names
                      | cons first more =>
                          rw [details] at resolves
                          simp only at resolves
                          cases named : known.op_ids.get? first.1 with
                          | none => rw [named] at resolves; cases resolves
                          | some op_id =>
                              rw [named] at resolves
                              simp only at resolves
                              split at resolves
                              · cases resolves
                                exact absurd (token_starts _ _) begins
                              · cases resolves
                                exact (op_id_of named).known
                    split at done
                    · rename_i digits
                      exact absurd (op_id_mark made) (digits_mark digits (by decide) (by decide))
                    · split at done
                      · rename_i digits
                        exact absurd mark (digits_mark digits (by decide) (by decide))
                      · cases done
              obtain ⟨n,rfl,digits,read,rfl,names⟩ := number
              refine .inr (.inl ⟨n,rfl,?_,?_⟩)
              · simp only [own_limit,if_neg blank,limit_value,limit_literal,names,if_pos digits,read]
                simp [chars]
              · intro place member
                simp only [limit_places,if_neg blank,List.mem_singleton] at member
                subst member
                have no_token : starts REF_TOKEN_PREFIX (strip text) = false := Bool.eq_false_iff.mpr begins
                have no_id : is_op_id (strip text) = false :=
                  Bool.eq_false_iff.mpr fun known => digits_mark digits (by decide) (by decide) (op_id_mark known)
                have own := resolved_of resolves
                have taken : referenced known (resolved letters known (.str (strip text))) = .ok none := by
                  rw [own]
                  simp [referenced,no_token,no_id]
                refine ⟨names,?_,⟨own.symm ▸ resolves,(payload_of taken).symm ▸ taken⟩⟩
                simp [mistaken,no_token,no_id]
        | none | bool _ | int _ | float _ | list _ | tuple _ | dict _ => cases done
  | bool _ | float _ | list _ | tuple _ | dict _ => cases done

-- What a select ends with: nothing, a number, or the slot of the limit.
structure LimitTail (letters : Letters) (python : Python) (known : Known) (limit : Value) (tail : Text) : Prop where
  opens : ∀ c ∈ tail.head?, c = ' '
  either : ('{' ∉ tail ∧ own_limit letters python known limit = chars tail ∧
      ∀ place ∈ limit_places limit, refers letters place.2 = none ∧ mistaken letters place.2 = false) ∨
    ∃ text p, limit = .str text ∧ strip text ≠ "" ∧ tail = " LIMIT ".toList ++ slot "limit".toList ∧
      payload_at letters known (.str (strip text)) = some p

def where_text (letters : Letters) (python : Python) (known : Known) (filters : List Filter) : Text :=
  if filters = [] then [] else " WHERE ".toList ++ " AND ".toList.intercalate (filters.map (clause_text letters python known))

def columns_text (letters : Letters) (columns : List String) : Text :=
  if columns = [] then ['*'] else [',',' '].intercalate (columns.map (quote_column_ref letters))

def base_text (letters : Letters) (python : Python) (known : Known) (table : String) (columns : List String) (filters : List Filter) : Text :=
  "SELECT ".toList ++ (columns_text letters columns ++ (" FROM ".toList ++ (quote_table_ref letters table ++
    where_text letters python known filters)))

def locked (filters : List Filter) (output_columns : List String) : List String := filters.foldl lock_column output_columns

theorem number_plain (n : Int) : '{' ∉ int_text n := by
  have digits : ∀ m, '{' ∉ Nat.toDigits 10 m := fun m member =>
    absurd (Nat.isDigit_of_mem_toDigits (by decide) (by decide) member) (by decide)
  cases n with
  | ofNat m => exact digits m
  | negSucc m => exact List.not_mem_cons_of_ne_of_not_mem (by decide) (digits _)

theorem locked_resolve (filters : List Filter) (output_columns : List String) :
    (filters.map (Filter.resolve letters known)).foldl lock_column output_columns = locked filters output_columns := by
  rw [List.foldl_map]
  rfl

-- How the limit is added to a query and its parameters.
def Finished (known : Known) (base : Text) (params : List Param) (limit : Limit) (built : Text × List Param) : Prop :=
  match limit with
  | .none => built = (base,params)
  | .int n => built = (base ++ (" LIMIT ".toList ++ int_text n),params)
  | .text s => ∃ payload, referenced known (.str s) = .ok payload ∧ ∀ p, payload = some p →
      built = (base ++ (" LIMIT ".toList ++ slot "limit".toList),add_param "limit".toList p params)

theorem add_limit_runs {query : Text} {params : List Param} {limit : Limit} {built : Text × List Param}
    (done : add_limit python known query params limit = .ok built) : Finished known query params limit built := by
  cases limit with
  | none => exact (Except.ok.inj done).symm
  | int n =>
      rw [Finished,← Except.ok.inj done,List.append_assoc]
  | text s =>
      obtain ⟨payload,limited,ends⟩ := bind_ok done
      refine ⟨payload,limited,?_⟩
      intro p taken
      subst taken
      rw [← Except.ok.inj ends,List.append_assoc]

theorem where_text_of (filters : List Filter) :
    (if ([] : List Text) ++ filters.map (clause_text letters python known) = [] then [] else " WHERE ".toList ++
      " AND ".toList.intercalate ([] ++ filters.map (clause_text letters python known))) = where_text letters python known filters := by
  by_cases empty : filters = []
  · subst empty
    exact (if_pos rfl).trans (if_pos rfl).symm
  · exact (if_neg fun none_left => empty (List.map_eq_nil_iff.mp none_left)).trans (if_neg empty).symm

theorem grouped_left (a b c d e : Text) : a ++ b ++ c ++ d ++ e = a ++ (b ++ (c ++ (d ++ e))) := by simp only [List.append_assoc]

theorem grouped_right (a b c d e rest : Text) : (a ++ (b ++ (c ++ (d ++ e)))) ++ rest = a ++ (b ++ (c ++ (d ++ (e ++ rest)))) := by
  simp only [List.append_assoc]

theorem build_runs {table : String} {filters : List Filter} {columns : List String} {limit : Limit} {built : Text × List Param}
    (done : build_sql_template_and_params letters python known table (filters.map (Filter.resolve letters known)) columns limit = .ok built) :
    (∀ filter ∈ filters, referenced known (resolved letters known filter.value) = .ok (payload_at letters known filter.value)) ∧
    Finished known (base_text letters python known table columns filters)
      (add_all (slots_of letters known (filters.map filter_place)) []) limit built := by
  obtain ⟨loop,runs,ends⟩ := bind_ok done
  obtain ⟨takes,rfl⟩ := loop_runs runs
  have finished := add_limit_runs ends
  have query : _ = base_text letters python known table columns filters :=
    (congrArg _ (where_text_of filters)).trans (grouped_left _ _ _ _ _)
  exact ⟨takes,query ▸ finished⟩

theorem select_runs {node_name table : String} {output_columns main_inputs : List String} {filters : List Filter} {limit : Value}
    {select : Select} (done : make_postgres_select letters python known node_name table output_columns main_inputs filters limit = .ok select) :
    (∀ place ∈ places filters limit, Taken letters known place.2) ∧
    select.params = add_all (slots_of letters known (places filters limit)) [] ∧
    ∃ tail, LimitTail letters python known limit tail ∧
      select.template = base_text letters python known table (locked filters output_columns) filters ++ tail := by
  obtain ⟨limited,normal,done⟩ := bind_ok done
  obtain ⟨rows,normals,done⟩ := bind_ok done
  obtain ⟨resolves,same⟩ := normalize_filters_runs normals
  obtain ⟨built,builds,done⟩ := bind_ok done
  cases done
  simp only at builds ⊢
  rw [same,locked_resolve] at builds
  obtain ⟨takes,built_as⟩ := build_runs builds
  have rowwise : ∀ place ∈ filters.map filter_place, Taken letters known place.2 := by
    intro place member
    obtain ⟨filter,among,rfl⟩ := List.mem_map.mp member
    exact ⟨resolves filter among,takes filter among⟩
  have dropped : (∀ place ∈ limit_places limit, payload_at letters known place.2 = none) →
      slots_of letters known (places filters limit) = slots_of letters known (filters.map filter_place) := by
    intro nothing
    have empty : slots_of letters known (limit_places limit) = [] := by
      refine List.filterMap_eq_nil_iff.mpr fun place member => ?_
      rw [nothing place member]
      rfl
    rw [places,slots_of,List.filterMap_append,← slots_of,← slots_of,empty,List.append_nil]
  rcases normalize_limit_cases python normal with ⟨found,own,none_left⟩ | ⟨n,found,own,each⟩ | ⟨text,token,rfl,filled,found,token_of,begins⟩
  · rw [found] at built_as
    simp only [Finished] at built_as
    refine ⟨?_,?_,[],⟨by simp,.inl ⟨List.not_mem_nil,own,?_⟩⟩,?_⟩
    · rw [places,none_left,List.append_nil]
      exact rowwise
    · rw [built_as,dropped]
      rw [none_left]
      exact fun _ member => absurd member List.not_mem_nil
    · rw [none_left]
      exact fun _ member => absurd member List.not_mem_nil
    · rw [built_as,List.append_nil]
  · rw [found] at built_as
    simp only [Finished] at built_as
    have nothing : ∀ place ∈ limit_places limit, payload_at letters known place.2 = none := by
      intro place member
      obtain ⟨unnamed,literal,taken⟩ := each place member
      have absent := (referenced_of_literal unnamed taken.resolves taken.takes).2
      rw [literal] at absent
      exact Option.isNone_iff_eq_none.mp (Option.isSome_eq_false_iff.mp absent)
    refine ⟨?_,?_,_,⟨by simp,.inl ⟨?_,own,fun place member => ⟨(each place member).1,(each place member).2.1⟩⟩⟩,congrArg Prod.fst built_as⟩
    · intro place member
      rcases List.mem_append.mp member with among | last
      · exact rowwise place among
      · exact (each place last).2.2
    · rw [built_as,dropped nothing]
    · intro inside
      rcases List.mem_append.mp inside with front | number
      · exact absurd front (by decide)
      · exact number_plain n number
  · rw [found] at built_as
    obtain ⟨payload,limited,built_as⟩ := built_as
    have resolved_token := resolved_of token_of
    have taken : Taken letters known (.str (strip text)) := by
      refine ⟨resolved_token.symm ▸ token_of,?_⟩
      have same : referenced known (resolved letters known (.str (strip text))) = .ok payload := resolved_token.symm ▸ limited
      exact (payload_of same).symm ▸ same
    have held : ∃ p, payload = some p := by
      simp only [referenced,begins,if_true] at limited
      obtain ⟨pair,_,rfl⟩ := map_ok limited
      exact ⟨_,rfl⟩
    obtain ⟨p,rfl⟩ := held
    have own : payload_at letters known (.str (strip text)) = some p :=
      payload_of (resolved_token.symm ▸ limited)
    have at_limit : limit_places (.str text) = [("limit".toList,.str (strip text))] := by simp only [limit_places,if_neg filled]
    refine ⟨?_,?_,_,⟨by simp,.inr ⟨text,p,rfl,filled,rfl,own⟩⟩,congrArg Prod.fst (built_as p rfl)⟩
    · intro place member
      rcases List.mem_append.mp member with among | last
      · exact rowwise place among
      · rw [at_limit] at last
        cases List.mem_singleton.mp last
        exact taken
    · have slots : slots_of letters known (places filters (.str text)) =
          slots_of letters known (filters.map filter_place) ++ [("limit".toList,p)] := by
        rw [places,at_limit,slots_of,List.filterMap_append]
        simp [slots_of,own]
      rw [built_as p rfl,slots,add_all_append]
      rfl

-- The label of every place that holds a payload is known.
def Held (letters : Letters) (known : Known) (values : Text → Option Payload) (place : Text × Value) : Prop :=
  ∀ p, payload_at letters known place.2 = some p → ∃ q, values place.1 = some q

theorem slot_end_iff {values : Text → Option Payload} (words : WordLabels values) {front label : Text} (plain : '{' ∉ front)
    (there : values label = some q) {own : List (Segment Payload)} :
    fill values (front ++ slot label) = chars front ++ own ↔ [.value q] = own := by
  have slotted := fill_slot (braceless_of_words words _ q there) there []
  rw [List.append_nil,fill_nil] at slotted
  rw [fill_plain plain,slotted,List.append_cancel_left_eq]

theorem value_no_text (p : Payload) (text : Text) : [Segment.value p] ≠ chars text := by
  intro same
  cases text with
  | nil => cases same
  | cons c cs => cases (List.cons.inj same).1

-- The slot of a limit stands for what the limit's text refers to.
theorem limit_value_iff {text : String} {p : Payload} (taken : Taken letters known (.str text))
    (payload : payload_at letters known (.str text) = some p) (q : Payload) :
    [.value q] = limit_value letters python known text ↔
      match refers letters (.str text) with
      | some r => q = own_payload known r
      | none => mistaken letters (.str text) = false := by
  unfold limit_value
  cases names : refers letters (.str text) with
  | some r => simp
  | none =>
      have wrong : mistaken letters (.str text) = true := by
        rw [← (referenced_of_literal names taken.resolves taken.takes).2,payload]
        rfl
      simp only [wrong,Bool.true_eq_false,iff_false]
      exact value_no_text q _

theorem limit_iff {values : Text → Option Payload} (words : WordLabels values) {limit : Value} {tail : Text}
    (ends : LimitTail letters python known limit tail) (taken : ∀ place ∈ limit_places limit, Taken letters known place.2)
    (held : ∀ place ∈ limit_places limit, Held letters known values place) :
    fill values tail = own_limit letters python known limit ↔ ∀ place ∈ limit_places limit, Fits letters known values place := by
  rcases ends.either with ⟨plain,own,each⟩ | ⟨text,p,rfl,filled,rfl,payload⟩
  · have same : fill values (tail ++ []) = chars tail ++ fill values [] := fill_plain plain []
    rw [List.append_nil,fill_nil,List.append_nil] at same
    rw [same,own]
    refine ⟨fun _ place member => ?_,fun _ => rfl⟩
    obtain ⟨unnamed,literal⟩ := each place member
    simpa [Fits,unnamed] using literal
  · have at_limit : limit_places (.str text) = [("limit".toList,.str (strip text))] := by simp only [limit_places,if_neg filled]
    rw [at_limit] at taken held ⊢
    have here := taken _ List.mem_cons_self
    obtain ⟨q,there⟩ := held _ List.mem_cons_self p payload
    have written : own_limit letters python known (.str text) = chars " LIMIT ".toList ++ limit_value letters python known (strip text) := by
      simp only [own_limit,if_neg filled]
    rw [written,slot_end_iff words (by decide) there,limit_value_iff here payload,List.forall_mem_singleton]
    simp only at there
    unfold Fits
    cases names : refers letters (.str (strip text)) with
    | some r => simp only [there,Option.some.injEq]
    | none => exact Iff.rfl

-- What a filter needs for its clause to come out.
def ClauseFits (letters : Letters) (python : Python) (known : Known) (values : Text → Option Payload) (filter : Filter) : Prop :=
  Clean values (quote_column_ref letters filter.column) ∧ Clean values filter.op.toList ∧
    (∀ piece ∈ literal_pieces letters python filter.value, Clean values piece) ∧ Fits letters known values (filter_place filter)

theorem and_plain : '{' ∉ " AND ".toList := by decide
theorem where_plain : '{' ∉ " WHERE ".toList := by decide
theorem select_plain : '{' ∉ "SELECT ".toList := by decide
theorem from_plain : '{' ∉ " FROM ".toList := by decide
theorem comma_plain : '{' ∉ [',',' '] := by decide
theorem star_plain : '{' ∉ ['*'] := by decide

theorem columns_iff {values : Text → Option Payload} (words : WordLabels values) {columns : List String} {rest : Text}
    {Y : List (Segment Payload)} (apart : Apart values rest) :
    fill values (columns_text letters columns ++ rest) = own_columns letters columns ++ Y ↔
      (∀ column ∈ columns, Clean values (quote_column_ref letters column)) ∧ fill values rest = Y := by
  rw [own_columns,columns_text]
  by_cases empty : columns = []
  · subst empty
    rw [if_pos rfl,if_pos rfl]
    refine (plain_iff star_plain).trans ⟨fun same => ⟨fun _ member => absurd member List.not_mem_nil,same⟩,fun both => both.2⟩
  · rw [if_neg empty,if_neg empty]
    exact joined_iff comma_plain (fun rest => apart_of_words words (by decide) (by decide) (by decide) _)
      (fun column _ rest Y apart => piece_iff words apart) apart

theorem where_iff {values : Text → Option Payload} (words : WordLabels values) {filters : List Filter}
    (taken : ∀ filter ∈ filters, Taken letters known filter.value) (held : ∀ filter ∈ filters, Held letters known values (filter_place filter))
    {rest : Text} {Y : List (Segment Payload)} (apart : Apart values rest) :
    fill values (where_text letters python known filters ++ rest) = own_where letters python known filters ++ Y ↔
      (∀ filter ∈ filters, ClauseFits letters python known values filter) ∧ fill values rest = Y := by
  rw [own_where,where_text]
  by_cases empty : filters = []
  · subst empty
    rw [if_pos rfl,if_pos rfl,List.nil_append,List.nil_append]
    exact ⟨fun same => ⟨fun _ member => absurd member List.not_mem_nil,same⟩,fun both => both.2⟩
  · rw [if_neg empty,if_neg empty,List.append_assoc,List.append_assoc]
    refine (plain_iff where_plain).trans ?_
    refine joined_iff and_plain (fun rest => apart_space words _) ?_ apart
    intro filter member rest Y apart
    exact clause_iff words (taken filter member) (held filter member) apart

theorem base_split (table : String) (columns : List String) (filters : List Filter) (tail : Text) :
    base_text letters python known table columns filters ++ tail = "SELECT ".toList ++ (columns_text letters columns ++
      (" FROM ".toList ++ (quote_table_ref letters table ++ (where_text letters python known filters ++ tail)))) :=
  grouped_right _ _ _ _ _ _

theorem where_apart {values : Text → Option Payload} (words : WordLabels values) (filters : List Filter) {tail : Text}
    (apart : Apart values tail) : Apart values (where_text letters python known filters ++ tail) := by
  unfold where_text
  split
  · exact apart
  · exact apart_space words _

theorem query_iff {values : Text → Option Payload} (words : WordLabels values) {table : String} {columns : List String}
    {filters : List Filter} {limit : Value} {tail : Text} (ends : LimitTail letters python known limit tail)
    (taken : ∀ place ∈ places filters limit, Taken letters known place.2)
    (held : ∀ place ∈ places filters limit, Held letters known values place) :
    fill values (base_text letters python known table columns filters ++ tail) = own_query letters python known table columns filters limit ↔
      (∀ column ∈ columns, Clean values (quote_column_ref letters column)) ∧ Clean values (quote_table_ref letters table) ∧
      (∀ filter ∈ filters, ClauseFits letters python known values filter) ∧
      ∀ place ∈ limit_places limit, Fits letters known values place := by
  have last := limit_iff words ends (fun place member => taken place (List.mem_append_right _ member))
    (fun place member => held place (List.mem_append_right _ member))
  have open_tail : Apart values tail := by
    intro c head
    cases ends.opens c head
    exact apart_space words [] ' ' rfl
  have rowwise : _ = own_where letters python known filters ++ own_limit letters python known limit ↔ _ := where_iff words (fun filter member => taken _ (List.mem_append_left _ (List.mem_map_of_mem member)))
    (fun filter member => held _ (List.mem_append_left _ (List.mem_map_of_mem member))) open_tail
  rw [base_split,own_query]
  refine (plain_iff select_plain).trans ?_
  refine (columns_iff words (apart_space words _)).trans (and_congr_right fun _ => ?_)
  refine (plain_iff from_plain).trans ?_
  refine (piece_iff words (where_apart words filters open_tail)).trans (and_congr_right fun _ => ?_)
  rw [rowwise,last]

end
end Lumilake.Parser.N8n
