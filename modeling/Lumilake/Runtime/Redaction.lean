import Lumilake.Runtime.Sensitive

namespace Lumilake

theorem redact_text_empty : redact_text "" = "" := by decide

-- Only a replaced value shows the placeholder alone.
theorem redact_plain {value : Value} (plain : is_secret value = false) :
    redact_sensitive value ≠ .str REDACTED_TOKEN_PLACEHOLDER := by
  cases value with
  | str s =>
      have empty : s = "" := by simpa [is_secret] using plain
      subst empty
      rw [redact_sensitive,redact_text_empty]
      decide
  | _ => simp [redact_sensitive]

-- What becomes of the value of an entry.
theorem shown_entry (key : String) {value value' : Value}
    (alike : redact_sensitive value = redact_sensitive value' ↔ Blurred value value') :
    (if is_sensitive_key key && is_secret value then Value.str REDACTED_TOKEN_PLACEHOLDER else redact_sensitive value) =
        (if is_sensitive_key key && is_secret value' then Value.str REDACTED_TOKEN_PLACEHOLDER else redact_sensitive value') ↔
      (is_sensitive_key key = true ∧ is_secret value = true ∧ is_secret value' = true) ∨
        (¬ (is_sensitive_key key = true ∧ (is_secret value = true ∨ is_secret value' = true)) ∧ Blurred value value') := by
  cases sensitive : is_sensitive_key key with
  | false => simpa using alike
  | true =>
      cases secret : is_secret value with
      | true =>
          cases secret' : is_secret value' with
          | true => simp
          | false => simpa using fun same : Value.str _ = _ => redact_plain secret' same.symm
      | false =>
          cases secret' : is_secret value' with
          | true => simpa using redact_plain secret
          | false => simpa using alike

-- The redacted values are equal just when the values differ in nothing but what is blurred.
mutual
theorem shown_alike : (value value' : Value) → (redact_sensitive value = redact_sensitive value' ↔ Blurred value value')
  | .none,value' => by cases value' <;> simp [redact_sensitive,Blurred]
  | .bool _,value' => by cases value' <;> simp [redact_sensitive,Blurred]
  | .int _,value' => by cases value' <;> simp [redact_sensitive,Blurred]
  | .float _,value' => by cases value' <;> simp [redact_sensitive,Blurred]
  | .str _,value' => by cases value' <;> simp [redact_sensitive,Blurred]
  | .tuple _,value' => by cases value' <;> simp [redact_sensitive,Blurred]
  | .list items,value' => by cases value' <;> simp [redact_sensitive,Blurred,shown_items items]
  | .dict entries,value' => by cases value' <;> simp [redact_sensitive,Blurred,shown_entries entries]
theorem shown_items : (items items' : List Value) → (redact_items items = redact_items items' ↔ BlurredItems items items')
  | [],items' => by cases items' <;> simp [redact_items,BlurredItems]
  | item :: items,items' => by
      cases items' with
      | nil => simp [redact_items,BlurredItems]
      | cons item' items' => simp [redact_items,BlurredItems,shown_alike item item',shown_items items items']
theorem shown_entries : (entries entries' : Spec) → (redact_entries entries = redact_entries entries' ↔ BlurredEntries entries entries')
  | [],entries' => by cases entries' <;> simp [redact_entries,BlurredEntries]
  | (key,value) :: entries,entries' => by
      cases entries' with
      | nil => simp [redact_entries,BlurredEntries]
      | cons head entries' =>
          obtain ⟨key',value'⟩ := head
          unfold redact_entries BlurredEntries
          rw [List.cons_eq_cons,Prod.mk.injEq,and_assoc]
          refine and_congr_right fun same => ?_
          subst same
          exact and_congr (shown_entry key (shown_alike value value')) (shown_entries entries entries')
end

-- For payloads that differ only under sensitive keys, that is a matter of those values alone.
mutual
theorem blurred_iff : (value value' : Value) → Agree value value' → (Blurred value value' ↔ Covered value value')
  | .none,value',agree => by cases value' <;> simp_all [Agree,Blurred,Covered]
  | .bool _,value',agree => by cases value' <;> simp_all [Agree,Blurred,Covered]
  | .int _,value',agree => by cases value' <;> simp_all [Agree,Blurred,Covered]
  | .float _,value',agree => by cases value' <;> simp_all [Agree,Blurred,Covered]
  | .str _,value',agree => by cases value' <;> simp_all [Agree,Blurred,Covered]
  | .tuple _,value',agree => by cases value' <;> simp_all [Agree,Blurred,Covered]
  | .list items,value',agree => by
      cases value' with
      | list items' => exact blurred_items items items' agree
      | _ => cases agree
  | .dict entries,value',agree => by
      cases value' with
      | dict entries' => exact blurred_entries entries entries' agree
      | _ => cases agree
theorem blurred_items : (items items' : List Value) → AgreeItems items items' → (BlurredItems items items' ↔ CoveredItems items items')
  | [],items',agree => by
      cases items' with
      | nil => exact Iff.rfl
      | cons item' items' => exact agree.elim
  | item :: items,items',agree => by
      cases items' with
      | nil => exact agree.elim
      | cons item' items' => exact and_congr (blurred_iff item item' agree.1) (blurred_items items items' agree.2)
theorem blurred_entries : (entries entries' : Spec) → AgreeEntries entries entries' →
    (BlurredEntries entries entries' ↔ CoveredEntries entries entries')
  | [],entries',agree => by
      cases entries' with
      | nil => exact Iff.rfl
      | cons head entries' => exact agree.elim
  | (key,value) :: entries,entries',agree => by
      cases entries' with
      | nil => exact agree.elim
      | cons head entries' =>
          obtain ⟨key',value'⟩ := head
          obtain ⟨same,agrees,rest⟩ := agree
          unfold BlurredEntries CoveredEntries
          rw [and_iff_right same]
          refine and_congr ?_ (blurred_entries entries entries' rest)
          cases sensitive : is_sensitive_key key with
          | true =>
              cases secret : is_secret value <;> cases secret' : is_secret value' <;> simp [Hidden,secret,secret']
          | false =>
              have agree := agrees.resolve_left (by rw [sensitive]; decide)
              simpa using blurred_iff value value' agree
end

-- For payloads that differ only in the values under sensitive keys, redaction hides the
-- difference just when it is hidden under each of those keys.
theorem redaction_hides_iff (payload payload' : Value) (agree : Agree payload payload') :
    redact_sensitive payload = redact_sensitive payload' ↔ Covered payload payload' :=
  (shown_alike payload payload').trans (blurred_iff payload payload' agree)

-- What is logged of a payload then does not depend on the difference either.
theorem logged_alike (loads : String → Option Value) (dumps : Value → String) (text : Value → String) {entries entries' : Spec}
    (agree : AgreeEntries entries entries') (covered : CoveredEntries entries entries') :
    redact_secrets_in_text loads dumps text (.dict entries) = redact_secrets_in_text loads dumps text (.dict entries') := by
  have same : redact_sensitive (.dict entries) = redact_sensitive (.dict entries') :=
    (shown_alike (.dict entries) (.dict entries')).mpr ((blurred_entries entries entries' agree).mpr covered)
  simp only [redact_secrets_in_text,same]

theorem redaction_hides_iff_tokens :
    let payload := Value.dict [("headers",.list [.dict [("authorization",.str "Bearer a")]])]
    let payload' := Value.dict [("headers",.list [.dict [("authorization",.str "Basic b")]])]
    payload ≠ payload' ∧ redact_sensitive payload = redact_sensitive payload' := by
  refine ⟨by decide,(redaction_hides_iff _ _ ?_).mpr ?_⟩
  · exact ⟨rfl,.inr ⟨⟨rfl,.inl (by decide),trivial⟩,trivial⟩,trivial⟩
  · exact ⟨⟨⟨.inl ⟨by decide,by decide⟩,trivial⟩,trivial⟩,trivial⟩

-- A number under a sensitive key is shown as it is.
theorem number_under_key_shown :
    ¬ ∀ payload payload', Agree payload payload' → redact_sensitive payload = redact_sensitive payload' := by
  intro always
  have same := always (.dict [("Authorization",.int 5)]) (.dict [("Authorization",.int 6)])
    ⟨rfl,.inl (by decide),trivial⟩
  exact absurd same (by decide)

end Lumilake
