import ContractPipeline.CommandLine.Run
import ContractPipeline.Proofs.Json.Layouts
import ContractPipeline.Proofs.Json.Members
import ContractPipeline.Proofs.Networks
import ContractPipeline.Proofs.Startup
import ContractPipeline.Proofs.Storage.Naming

/-! What is shown of a configuration: as compact JSON, by the command `config`, and by the server.
All of it is JSON that says the same, and the strings in it are those of the environment. -/
namespace ContractPipeline

open Json (Value Means)

namespace Networks

def entry (networks : Networks) (profile : String × NetworkProfile) : Value :=
  .record (("name", .text profile.1) :: ("default", .bool (profile.1 == networks.defaultName)) ::
    profile.2.members)

/-- A list of entries that repeats the profiles of a table, in the order of their names. One entry is
marked, and it is the one that is used where no name is given. -/
structure Repeated (networks : Networks) (profiles : Value) (entries : List Value) : Prop where
  increasing : ∃ names : List String, names.Pairwise (· < ·) ∧
    entries.map (·.member? "name") = names.map (some <| .text ·) ∧
    ∃ members, profiles = .record members ∧ members.map Prod.fst = names
  alike : ∀ entry ∈ entries, ∀ name, entry.member? "name" = some (.text name) →
    profiles.member? name = some (entry.without ["name", "default"])
  marked : ∃ name profile before entry after, networks.resolve none = .ok (name, profile) ∧
    entries = before ++ entry :: after ∧ entry.member? "name" = some (.text name) ∧
    entry.member? "default" = some (.bool true) ∧
    ∀ other ∈ before ++ after, other.member? "default" = some (.bool false)

variable {networks : Networks}

theorem toJsonList_eq (networks : Networks) :
    networks.toJsonList = .list (networks.profiles.map networks.entry) := rfl

def table (networks : Networks) : Value :=
  .record (networks.profiles.map fun (name, profile) => (name, .record profile.members))

theorem member?_name (networks : Networks) (profile : String × NetworkProfile) :
    (networks.entry profile).member? "name" = some (.text profile.1) := rfl

theorem member?_default (networks : Networks) (profile : String × NetworkProfile) :
    (networks.entry profile).member? "default" =
      some (.bool (profile.1 == networks.defaultName)) := rfl

theorem without_entry (networks : Networks) (profile : String × NetworkProfile) :
    (networks.entry profile).without ["name", "default"] = .record profile.2.members := by
  simp [entry, Value.without, NetworkProfile.members]

theorem member?_table (name : String) :
    networks.table.member? name =
      (networks.get? name).map fun profile => .record profile.members :=
  Json.lookup_map_snd networks.profiles (fun profile => Value.record profile.members) name

theorem repeated (ho : Table.InOrder networks.profiles) {profile : NetworkProfile}
    (hd : (networks.defaultName, profile) ∈ networks.profiles) :
    networks.Repeated networks.table (networks.profiles.map networks.entry) := by
  constructor
  case increasing =>
    refine ⟨networks.profiles.map Prod.fst, ho.pairwise_names, ?_, _, rfl, ?_⟩
    · rw [List.map_map, List.map_map]
      rfl
    · rw [List.map_map]
      rfl
  case alike =>
    intro entry he name hn
    obtain ⟨pair, hp, rfl⟩ := List.mem_map.mp he
    rw [member?_name, Option.some.injEq, Value.text.injEq] at hn
    subst hn
    rw [member?_table, (get?_eq_some_iff ho).mpr hp, without_entry]
    rfl
  case marked =>
    obtain ⟨before, after, hp⟩ := List.append_of_mem hd
    have hr : networks.resolve none = .ok (networks.defaultName, profile) :=
      resolve_of_get?_eq_some ((get?_eq_some_iff ho).mpr hd)
    refine ⟨_, profile, before.map networks.entry, networks.entry (networks.defaultName, profile),
      after.map networks.entry, hr, ?_, rfl, ?_, ?_⟩
    · rw [hp, List.map_append, List.map_cons]
    · rw [member?_default, beq_self_eq_true]
    · intro other hother
      rw [← List.map_append] at hother
      obtain ⟨pair, hm, rfl⟩ := List.mem_map.mp hother
      have hne : pair.1 ≠ networks.defaultName := ho.ne_of_mem_append hp hm
      rw [member?_default, beq_eq_false_iff_ne.mpr hne]

theorem distinct_table (hn : (networks.profiles.map Prod.fst).Nodup) : networks.table.Distinct := by
  have hm : ∀ profile : NetworkProfile, (Value.record profile.members).Distinct := by
    intro profile
    simp [NetworkProfile.members]
  exact Json.distinct_record_map hn hm

theorem distinct_entry (profile : String × NetworkProfile) : (networks.entry profile).Distinct := by
  simp [entry, NetworkProfile.members]

theorem distinct_toJson (hn : (networks.profiles.map Prod.fst).Nodup) :
    networks.toJson.Distinct := by
  have ht := distinct_table hn
  simpa [toJson, table] using ht

end Networks

namespace Configuration

/-- The strings of an environment as they stand in the object of its configuration. -/
structure Strings (env : Environment) (config : Configuration) (whole : Value) : Prop where
  version : whole.at? ["solidity", "version"] =
    some (.text ((env.get? "SOLC_VERSION").getD "0.8.0"))
  expectedVersion : whole.at? ["native_compiler", "expected_version"] =
    some (.ofText? (env.get? "SOLC_VERSION"))
  binaryPath : whole.at? ["native_compiler", "binary_path"] = some (.ofText? (env.get? "SOLC_PATH"))
  cacheDirectory : whole.at? ["compiler_cache_dir"] =
    some (.text ((env.get? "SOLC_CACHE_DIR").getD ".toolchain/compilers"))
  rinkeby : whole.at? ["networks", "profiles", "rinkeby", "url"] =
    some (.ofText? (env.get? "RINKEBY_URL"))
  goerli : whole.at? ["networks", "profiles", "goerli", "url"] =
    some (.ofText? (env.get? "GOERLI_URL"))
  inProcess : whole.at? ["networks", "profiles", "hardhat", "url"] = some .null
  localNode : whole.at? ["networks", "profiles", "localhost", "url"] =
    some (.text ("http://localhost:" ++ toString config.port))

/-- The views of a configuration, with what each of them means. -/
structure Views (env : Environment) (config : Configuration) (whole table : Value)
    (entries : List Value) : Prop where
  compact : Means config.toJson.toCompact whole
  printed : ∀ host : CommandLine.Host, host.environment = env →
    ∃ text, (CommandLine.run host ["config"]).value = .report (.print text) ∧ Means text whole
  served : ∀ server : Server.DevServer, server.config = config →
    Means (server.respond ⟨"GET", .ofString "/api/config"⟩).body whole
  tabulated : Means config.networks.toJson.toCompact table
  listed : ∀ server : Server.DevServer, server.config = config →
    Means (server.respond ⟨"GET", .ofString "/api/networks"⟩).body (.list entries)
  distinct : whole.Distinct ∧ table.Distinct ∧ (Value.list entries).Distinct
  strings : Strings env config whole
  repeated : ∃ profiles, whole.at? ["networks", "profiles"] = some profiles ∧
    table.at? ["profiles"] = some profiles ∧ config.networks.Repeated profiles entries

theorem distinct_toJson {config : Configuration}
    (hn : (config.networks.profiles.map Prod.fst).Nodup)
    (hr : (config.namedAccounts.map Prod.fst).Nodup) : config.toJson.Distinct := by
  have ht := Networks.distinct_toJson hn
  have ha := Json.distinct_record_map hr fun index => Value.Distinct.number index
  unfold toJson
  generalize Value.record (List.map _ config.namedAccounts) = roles at ha ⊢
  simp [ht, ha]

theorem binaryPath_ofNumbers (env : Environment) (runs port : Nat) :
    (ofNumbers env runs port).nativeCompiler.binaryPath =
      (env.get? Variable.solcPath.key).map Storage.Path.ofString := rfl

/-- The paths of a configuration that is read are texts, so that it can be written. -/
theorem written?_ofNumbers (env : Environment) (runs port : Nat) :
    (ofNumbers env runs port).written? = some (ofNumbers env runs port).toJson := by
  have ht : ∀ path ∈ (ofNumbers env runs port).paths, path.toString?.isSome = true := by
    intro path hp
    rcases List.mem_append.mp hp with hb | hc
    · rw [binaryPath_ofNumbers, Option.mem_toList, Option.map_eq_some_iff] at hb
      obtain ⟨s, -, rfl⟩ := hb
      rw [Storage.Path.toString?_ofString, Option.isSome_some]
    · rw [List.mem_singleton.mp hc]
      exact congrArg Option.isSome (Storage.Path.toString?_ofString _)
  exact if_pos (List.all_eq_true.mpr ht)

theorem strings_ofNumbers (env : Environment) (runs port : Nat) :
    Strings env (ofNumbers env runs port) (ofNumbers env runs port).toJson where
  version := rfl
  expectedVersion := rfl
  binaryPath := by
    have hb := Storage.Path.map_display_map_ofString (env.get? Variable.solcPath.key)
    exact congrArg (fun text? => some (Value.ofText? text?)) hb
  cacheDirectory := congrArg (fun text => some (Value.text text)) (Storage.Path.display_ofString _)
  rinkeby := rfl
  goerli := rfl
  inProcess := rfl
  localNode := rfl

theorem value_run_config {host : CommandLine.Host} {config : Configuration}
    (h : read host.environment = .ok config) :
    (CommandLine.run host ["config"]).value = .report (.json config.written?) := by
  have hs : (CommandLine.start host .config).value = .json config.written? := by
    rw [CommandLine.start, Application.start_eq, h]
    rfl
  exact congrArg CommandLine.Result.report hs

theorem body_config (server : Server.DevServer) :
    (server.respond ⟨"GET", .ofString "/api/config"⟩).body =
      (Server.Response.json server.config.written?).body := rfl

theorem body_networks (server : Server.DevServer) :
    (server.respond ⟨"GET", .ofString "/api/networks"⟩).body =
      server.config.networks.toJsonList.toCompact := rfl

/-- Whatever strings an environment holds, the views of the configuration that is read from it mean
the same: in compact and in pretty form, from the command and from the server, and in the list of
networks beside the table of them. -/
theorem load_views {env : Environment} {config : Configuration}
    (h : (load env).value = .ok config) :
    ∃ whole table entries, Views env config whole table entries := by
  rw [value_load] at h
  obtain ⟨runs, port, -, -, rfl⟩ := read_eq_ok_iff.mp h
  have hj := written?_ofNumbers env runs port
  refine ⟨(ofNumbers env runs port).toJson, (Networks.standard env port).toJson,
    (Networks.standard env port).profiles.map (Networks.standard env port).entry, ?_⟩
  have ho := Networks.inOrder_standard env port
  have hn := ho.nodup_names
  constructor
  case compact => exact Json.means_toCompact _
  case printed =>
    intro host hh
    subst hh
    have hv := value_run_config h
    rw [hj] at hv
    exact ⟨_, hv, Json.means_toPretty _⟩
  case served =>
    intro server hc
    rw [body_config, hc, hj]
    exact Json.means_toCompact _
  case tabulated => exact Json.means_toCompact _
  case listed =>
    intro server hc
    rw [body_networks, hc, Networks.toJsonList_eq]
    exact Json.means_toCompact _
  case distinct =>
    refine ⟨distinct_toJson hn (List.nodup_singleton _), Networks.distinct_toJson hn, .list ?_⟩
    intro entry he
    obtain ⟨profile, -, rfl⟩ := List.mem_map.mp he
    exact Networks.distinct_entry profile
  case strings => exact strings_ofNumbers env runs port
  case repeated =>
    have hd : ((Networks.standard env port).defaultName, .localNode port) ∈
        (Networks.standard env port).profiles :=
      (Networks.get?_eq_some_iff ho).mp rfl
    exact ⟨_, rfl, rfl, Networks.repeated ho hd⟩

theorem load_views_escaped :
    let env : Environment := ⟨[("SOLC_VERSION", "0.8\"\\\n\x01é\t"), ("RPC_PORT", " +80"),
      ("GOERLI_URL", "\x1f\x7f/"), ("RINKEBY_URL", "")]⟩
    ∃ config whole table entries, (load env).value = .ok config ∧
      Views env config whole table entries ∧
      whole.at? ["solidity", "version"] = some (.text "0.8\"\\\n\x01é\t") ∧
      whole.at? ["networks", "profiles", "goerli", "url"] = some (.text "\x1f\x7f/") ∧
      whole.at? ["networks", "profiles", "rinkeby", "url"] = some .null := by
  intro env
  have hl : (load env).value = .ok (ofNumbers env 200 80) := by rfl
  obtain ⟨whole, table, entries, hv⟩ := load_views hl
  exact ⟨_, whole, table, entries, hl, hv, hv.strings.version, hv.strings.goerli, hv.strings.rinkeby⟩

end Configuration
end ContractPipeline
