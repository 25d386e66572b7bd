import ContractPipeline.Network
import ContractPipeline.Proofs.Table
import ContractPipeline.Proofs.Variables

/-! The profiles of networks: which variables each is made from, and that a request for a name finds
the profile that is listed under it. -/
namespace ContractPipeline

section Sources

variable {env env' : Environment}

theorem Networks.port_eq (h : env.get? Variable.rpcPort.key = env'.get? Variable.rpcPort.key) :
    port env = port env' :=
  Environment.number_congr h _ _

namespace NetworkProfile

theorem publicTest_eq {url phrase : Variable} (hu : env.get? url.key = env'.get? url.key)
    (hp : env.get? phrase.key = env'.get? phrase.key) :
    publicTest env url phrase = publicTest env' url phrase := by
  rw [publicTest, hu, hp]
  rfl

theorem inProcess_eq (h : env.get? Variable.testPhrase.key = env'.get? Variable.testPhrase.key) :
    inProcess env = inProcess env' := by
  rw [inProcess, h]
  rfl

end NetworkProfile

end Sources

namespace Networks

section Resolving

variable {networks : Networks} {name? : Option String} {name : String} {profile : NetworkProfile}

theorem resolve_of_get?_eq_none (h : networks.get? (name?.getD networks.defaultName) = none) :
    networks.resolve name? = .error (.unknownNetwork (name?.getD networks.defaultName)) := by
  simp only [resolve, h]

theorem resolve_of_get?_eq_some
    (h : networks.get? (name?.getD networks.defaultName) = some profile) :
    networks.resolve name? = .ok (name?.getD networks.defaultName, profile) := by
  simp only [resolve, h]

theorem get?_eq_none_iff :
    networks.get? name = none ↔ name ∉ networks.profiles.map Prod.fst := by
  rw [get?, List.lookup_eq_none_iff, List.mem_map]
  constructor
  · rintro h ⟨pair, hm, rfl⟩
    exact absurd (h pair hm) (by simp)
  · intro h pair hm
    exact bne_iff_ne.mpr fun hn => h ⟨pair, hm, hn.symm⟩

theorem get?_eq_some_iff (ho : Table.InOrder networks.profiles) :
    networks.get? name = some profile ↔ (name, profile) ∈ networks.profiles :=
  ho.lookup_eq_some_iff

end Resolving

section Standard

variable (env : Environment) (port : Nat)

theorem load_eq_ok_iff {networks : Networks} :
    load env = .ok networks ↔ ∃ port, Networks.port env = .ok port ∧ networks = standard env port := by
  unfold load
  cases Networks.port env with
  | error error => simp [Except.map]
  | ok port => simp [Except.map, eq_comm]

theorem load_eq_error_iff {error : ConfigError} :
    load env = .error error ↔ Networks.port env = .error error := by
  unfold load
  cases Networks.port env with
  | error other => simp [Except.map]
  | ok port => simp [Except.map]

theorem inOrder_standard : Table.InOrder (standard env port).profiles :=
  Table.inOrder_insertAll _ List.Pairwise.nil

/-- What is found is the last definition of the name. -/
theorem get?_standard (name : String) :
    (standard env port).get? name = (definitions env port).reverse.lookup name :=
  (Table.lookup_insertAll _ [] name).trans Option.or_none

end Standard

end Networks

end ContractPipeline
