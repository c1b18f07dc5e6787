import Lumilake.Value
import Lumilake.Library.Fallible

namespace Lumilake.Ops
open Fallible

-- `type(value).__name__`
def type_name : Value → String
  | .none => "NoneType"
  | .bool _ => "bool"
  | .int _ => "int"
  | .float _ => "float"
  | .str _ => "str"
  | .list _ => "list"
  | .tuple _ => "tuple"
  | .dict _ => "dict"

-- The fields of a dataclass, each with its default.
abbrev Fields := List (String × Value)

-- `cls(**kwargs)` before `__post_init__`: unknown keywords fail, missing ones take the default.
def of_kwargs (name : String) (fields : Fields) (kwargs : Spec) : Except String Spec :=
  match kwargs.find? (fun e => decide (e.1 ∉ fields.map Prod.fst)) with
  | some e => .error (name ++ ".__init__() got an unexpected keyword argument '" ++ e.1 ++ "'")
  | none => .ok (fields.map fun f => (f.1,(kwargs.lookup f.1).getD f.2))

def ApiConfig : Fields :=
  [("url",.none),("model",.none),("authorization",.none),("timeout_sec",.none),("retries",.none)]

def GenerationConfig : Fields :=
  [("model",.str ""),("api",.none),("frequency_penalty",.none),("logit_bias",.none),("logprobs",.none),
    ("max_tokens",.none),("n",.none),("presence_penalty",.none),("seed",.none),("stop",.none),("stream",.none),
    ("stream_options",.none),("temperature",.none),("top_p",.none),("ignore_eos",.none),("chat_template_kwargs",.none),
    ("min_tokens",.none),("repetition_penalty",.none),("top_k",.none),("min_p",.none),("extra_sampling_params",.none),
    ("max_model_len",.none),("gpu_memory_utilization",.none),("tensor_parallel_size",.none),("dtype",.none),
    ("extra_engine_kwargs",.none)]

def post_init_api : Value → Except String Value
  | .dict api => (of_kwargs "ApiConfig" ApiConfig api).map .dict
  | .none => .ok .none
  | other => .error ("GenerationConfig.api must be a mapping or ApiConfig, got " ++ type_name other ++ ".")

def set_api (api : Value) (config : Spec) : Spec := config.map fun e => if e.1 = "api" then (e.1,api) else e

-- The configuration as `to_dict` gives it back: every field, the API part a dict of its own.
def generation_config (kwargs : Value) : Except String Spec :=
  match kwargs with
  | .dict kwargs => do
    let config ← of_kwargs "GenerationConfig" GenerationConfig kwargs
    let api ← post_init_api ((config.lookup "api").getD .none)
    let config := set_api api config
    if ((config.lookup "model").getD .none).truth then pure config
    else .error "GenerationConfig.model is required in both local and API mode."
  | other => .error ("argument after ** must be a mapping, not " ++ type_name other)

def named (fields : Fields) (config : Spec) : Prop := config.map Prod.fst = fields.map Prod.fst

theorem of_kwargs_named {name : String} {fields : Fields} {kwargs config : Spec}
    (made : of_kwargs name fields kwargs = .ok config) : named fields config := by
  unfold of_kwargs at made
  split at made
  · cases made
  · cases made
    simp [named]

-- A spec that has every field, once each and in order, is read back as it is.
theorem of_kwargs_self {name : String} {fields : Fields} {config : Spec} (distinct : (fields.map Prod.fst).Nodup)
    (full : named fields config) : of_kwargs name fields config = .ok config := by
  have known : config.find? (fun e => decide (e.1 ∉ fields.map Prod.fst)) = none := by
    rw [List.find?_eq_none]
    intro e member
    have inside : e.1 ∈ fields.map Prod.fst := full ▸ List.mem_map_of_mem member
    simpa using inside
  unfold of_kwargs
  rw [known]
  refine congrArg Except.ok ?_
  clear known
  unfold named at full
  induction config generalizing fields with
  | nil =>
      cases fields with
      | nil => rfl
      | cons f rest => cases full
  | cons e rest ih =>
      cases fields with
      | nil => cases full
      | cons f fields =>
          simp only [List.map_cons,List.cons.injEq,List.nodup_cons] at full distinct
          obtain ⟨same,full⟩ := full
          rw [List.map_cons]
          have head : (f.1,(List.lookup f.1 (e :: rest)).getD f.2) = e := by
            rw [← same,List.lookup_cons,beq_self_eq_true]
            rfl
          refine congrArg₂ List.cons head ?_
          calc fields.map (fun f => (f.1,(List.lookup f.1 (e :: rest)).getD f.2))
              = fields.map (fun f => (f.1,(List.lookup f.1 rest).getD f.2)) := by
                refine List.map_congr_left fun g member => ?_
                have different : g.1 ≠ e.1 := by
                  rw [same]
                  exact fun clash => distinct.1 (clash ▸ List.mem_map_of_mem member)
                rw [List.lookup_cons,beq_false_of_ne different]
            _ = rest := ih distinct.2 full

theorem lookup_named {fields : Fields} {config : Spec} (full : named fields config) {key : String}
    (known : key ∈ fields.map Prod.fst) : ∃ v, config.lookup key = some v := by
  rw [← full] at known
  cases found : config.lookup key with
  | some v => exact ⟨v,rfl⟩
  | none =>
      obtain ⟨e,member,rfl⟩ := List.mem_map.mp known
      have absent := List.lookup_eq_none_iff.mp found e member
      simp at absent

theorem set_api_named {fields : Fields} {config : Spec} (full : named fields config) (api : Value) :
    named fields (set_api api config) := by
  unfold named set_api at *
  rw [← full,List.map_map]
  refine List.map_congr_left fun e _ => ?_
  dsimp only [Function.comp]
  split <;> rfl

theorem lookup_set_api (api : Value) (config : Spec) (key : String) : (set_api api config).lookup key =
    if key = "api" then (config.lookup key).map fun _ => api else config.lookup key := by
  unfold set_api
  induction config with
  | nil => simp
  | cons e rest ih =>
      rw [List.map_cons,List.lookup_cons,List.lookup_cons]
      by_cases here : key = e.1
      · subst here
        by_cases is_api : e.1 = "api"
        · simp [is_api]
        · simp [is_api]
      · by_cases is_api : e.1 = "api"
        · rw [if_pos is_api,beq_false_of_ne here]
          exact ih
        · rw [if_neg is_api,beq_false_of_ne here]
          exact ih

theorem post_init_api_self {api loaded : Value} (made : post_init_api api = .ok loaded) :
    post_init_api loaded = .ok loaded := by
  cases api with
  | dict entries =>
      cases read : of_kwargs "ApiConfig" ApiConfig entries with
      | error message =>
          simp only [post_init_api,read] at made
          cases made
      | ok config =>
          simp only [post_init_api,read] at made
          cases made
          have again : of_kwargs "ApiConfig" ApiConfig config = .ok config :=
            of_kwargs_self (by decide) (of_kwargs_named read)
          simp only [post_init_api,again]
          rfl
  | none =>
      cases made
      rfl
  | bool b => cases made
  | int i => cases made
  | float q => cases made
  | str s => cases made
  | list items => cases made
  | tuple items => cases made

theorem set_api_self {api : Value} {config : Spec} (found : ∀ e ∈ config, e.1 = "api" → e.2 = api) :
    set_api api config = config := by
  unfold set_api
  refine (List.map_congr_left fun e member => ?_).trans config.map_id
  split
  · rename_i here
    rw [← found e member here]
    rfl
  · rfl

-- A configuration that was accepted is accepted again, as it is.
theorem generation_config_self {kwargs : Value} {config : Spec} (accepted : generation_config kwargs = .ok config) :
    generation_config (.dict config) = .ok config := by
  cases kwargs with
  | dict entries =>
      simp only [generation_config] at accepted
      obtain ⟨read,made,accepted⟩ := bind_ok accepted
      obtain ⟨api,initialised,accepted⟩ := bind_ok accepted
      split_ifs at accepted with modelled
      cases accepted
      have full := set_api_named (of_kwargs_named made) api
      have again : of_kwargs "GenerationConfig" GenerationConfig (set_api api read) = .ok (set_api api read) :=
        of_kwargs_self (by decide) full
      have is_api : ((set_api api read).lookup "api").getD .none = api := by
        obtain ⟨old,found⟩ := lookup_named (of_kwargs_named made) (show "api" ∈ GenerationConfig.map Prod.fst by decide)
        rw [lookup_set_api,if_pos rfl,found]
        rfl
      simp only [generation_config,again,ok_bind,is_api,post_init_api_self initialised]
      rw [set_api_self,if_pos modelled]
      · rfl
      · intro e member here
        obtain ⟨old,_,rfl⟩ := List.mem_map.mp member
        split
        · rfl
        · rename_i other
          rw [if_neg other] at here
          exact absurd here other
  | none => cases accepted
  | bool b => cases accepted
  | int i => cases accepted
  | float q => cases accepted
  | str s => cases accepted
  | list items => cases accepted
  | tuple items => cases accepted

end Lumilake.Ops
