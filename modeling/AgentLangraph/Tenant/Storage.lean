import AgentLangraph.Access.Tenant
import AgentLangraph.Lib.PyDict
import AgentLangraph.Lib.PyPath
import AgentLangraph.Lib.Trace
import Mathlib.Data.List.Dedup
import Mathlib.Logic.Function.Basic

/-! Where the data of a tenant is kept (`tenant_storage.py`, `tenant_context.py`, `tenant_access.py`, and the
    stores). A request has its tenant's id cleaned into a context variable; a store is made at the first use
    under the cleaned id, and `default` stands for no tenant.

        header, principal ── resolve ──▶ id ── set ──▶ clean id ── key ──┬──▶ _stores[key]  tenant_{key}.db
                                                                      └──▶ _store        SQLITE_PATH -/

namespace AgentLangraph.Tenant
open PyText Trace
open AgentLangraph.Access (AuthPrincipal Refusal)

/-- The settings that say where stores are. -/
structure StorageSettings where
  multiTenantEnabled : Bool
  /-- `uses_postgres()`. -/
  usesPostgres : Bool
  authEnabled : Bool
  sqlitePath : Text
  vectorstorePath : Text

/-! ### Ids and paths -/

/-- What is left of an id: `re.sub(r"[^a-zA-Z0-9_-]", "", tenant_id)[:64]`. -/
def cleanTenantId (tenantId : Text) : Text :=
  (tenantId.filter fun c => c.isAlphanum || c = '_' || c = '-').take 64

/-- `sanitize_tenant_id`; the error is the message of the `ValueError`. -/
def sanitizeTenantId (tenantId : Text) : Except Text Text :=
  if cleanTenantId tenantId = [] then .error "tenant_id must contain alphanumeric characters".toList
  else .ok (cleanTenantId tenantId)

/-- The name of a tenant's database. -/
def tenantDb (safe : Text) : Text := "tenant_".toList ++ safe ++ ".db".toList

/-- The database of a tenant whose id is clean. -/
def tenantPath (cfg : StorageSettings) (safe : Text) : Text :=
  ((PurePath.ofText cfg.sqlitePath).parent.join (tenantDb safe)).toText

/-- `sqlite_path_for_tenant`. -/
def sqlitePathForTenant (cfg : StorageSettings) (tenantId : Text) : Except Text Text :=
  (sanitizeTenantId tenantId).map (tenantPath cfg)

/-- `vectorstore_path_for_tenant`. -/
def vectorstorePathForTenant (cfg : StorageSettings) (tenantId : Text) : Except Text Text :=
  (sanitizeTenantId tenantId).map fun safe =>
    ((PurePath.ofText cfg.vectorstorePath).join ("tenant_".toList ++ safe)).toText

/-- What is shared, unless tenants are told apart and there is one. -/
def ofTenant (cfg : StorageSettings) (shared : Text) (forTenant : Text → Except Text Text)
    (tenantId : Option Text) : Except Text Text :=
  if !cfg.multiTenantEnabled || cfg.usesPostgres then .ok shared
  else match tenantId with
    | none => .ok shared
    | some tid => if tid = [] then .ok shared else forTenant tid

/-- `tenant_cache_key`, where `current` is the context variable. -/
def tenantCacheKey (cfg : StorageSettings) (current tenantId : Option Text) : Except Text Text :=
  ofTenant cfg "default".toList sanitizeTenantId (tenantId.or current)

/-- `current_sqlite_path`. -/
def currentSqlitePath (cfg : StorageSettings) (current : Option Text) : Except Text Text :=
  ofTenant cfg cfg.sqlitePath (sqlitePathForTenant cfg) current

/-- `current_vectorstore_path`. -/
def currentVectorstorePath (cfg : StorageSettings) (current : Option Text) : Except Text Text :=
  ofTenant cfg cfg.vectorstorePath (vectorstorePathForTenant cfg) current

/-! ### Stores -/

inductive StoreKind
  | state | audit | deadLetter | memory | knowledge | llmInteraction | chatMessage
  deriving DecidableEq

structure Store where
  kind : StoreKind
  dbPath : Text
  /-- Only the knowledge has one. -/
  vectorPath : Option Text := none
  deriving DecidableEq

/-- `value or setting`. -/
def orSetting (value : Option Text) (setting : Text) : Text :=
  match value with
  | none => setting
  | some t => if t = [] then setting else t

/-- The constructor of a store. -/
def newStore (cfg : StorageSettings) (kind : StoreKind) (dbPath vectorPath : Option Text) : Store where
  kind := kind
  dbPath := orSetting dbPath cfg.sqlitePath
  vectorPath := if kind = .knowledge then some (orSetting vectorPath cfg.vectorstorePath) else none

/-- `_store` and `_stores` of the modules. -/
structure Registry where
  store : StoreKind → Option Store := fun _ => none
  stores : StoreKind → PyDict Text Store := fun _ => PyDict.empty

/-- What the getters have in common. -/
def getStore (cfg : StorageSettings) (kind : StoreKind) (current : Option Text) (r : Registry) :
    Except Text (Registry × Store) := do
  let key ← tenantCacheKey cfg current none
  if key = "default".toList then
    match r.store kind with
    | some store => pure (r, store)
    | none =>
      let store := newStore cfg kind none none
      pure ({ r with store := Function.update r.store kind (some store) }, store)
  else
    match (r.stores kind).get? key with
    | some store => pure (r, store)
    | none =>
      let dbPath ← currentSqlitePath cfg current
      let vectorPath ← if kind = .knowledge then some <$> currentVectorstorePath cfg current else pure none
      let store := newStore cfg kind (some dbPath) vectorPath
      pure ({ r with stores := Function.update r.stores kind ((r.stores kind).set key store) }, store)

def getStateStore (cfg : StorageSettings) := getStore cfg .state

def getAuditStore (cfg : StorageSettings) := getStore cfg .audit

def getDeadLetterStore (cfg : StorageSettings) := getStore cfg .deadLetter

def getMemoryStore (cfg : StorageSettings) := getStore cfg .memory

def getKnowledgeStore (cfg : StorageSettings) := getStore cfg .knowledge

def getLlmInteractionStore (cfg : StorageSettings) := getStore cfg .llmInteraction

def getChatMessageStore (cfg : StorageSettings) := getStore cfg .chatMessage

/-- The getter of the stores of a kind. -/
def getterOf (cfg : StorageSettings) : StoreKind → Option Text → Registry → Except Text (Registry × Store)
  | .state => getStateStore cfg
  | .audit => getAuditStore cfg
  | .deadLetter => getDeadLetterStore cfg
  | .memory => getMemoryStore cfg
  | .knowledge => getKnowledgeStore cfg
  | .llmInteraction => getLlmInteractionStore cfg
  | .chatMessage => getChatMessageStore cfg

/-- The modules that `reset_tenant_store_caches` goes through. -/
def resetKinds : List StoreKind := [.state, .audit, .deadLetter, .memory, .knowledge]

/-- `reset_tenant_store_caches`. -/
def resetTenantStoreCaches (r : Registry) : Registry where
  store kind := if kind ∈ resetKinds then none else r.store kind
  stores kind := if kind ∈ resetKinds then PyDict.empty else r.stores kind

/-- What `drop_tenant_storage` does to the stores that are held. -/
def dropTenantStorage (cfg : StorageSettings) (tenantId : Text) (r : Registry) : Except Text Registry :=
  (sanitizeTenantId tenantId).map fun _ => if cfg.usesPostgres then r else resetTenantStoreCaches r

/-! ### The tenant of a request -/

/-- What `set_tenant_id` makes of an id. -/
def setTenantId (tenantId : Text) : Option Text :=
  if cleanTenantId tenantId = [] then none else some (cleanTenantId tenantId)

/-- A text, unless it is empty. -/
def truthy (t : Option Text) : Option Text := t.filter (· ≠ [])

/-- `apply_tenant_headers`: the context variable behind it. -/
def applyTenantHeaders (header current : Option Text) : Option Text :=
  match truthy header with
  | some tid => setTenantId tid
  | none => current

/-- `AuthPrincipal`, with its tenants. -/
structure TenantPrincipal extends AuthPrincipal where
  authMethod : Text
  tenantId : Option Text := none
  tenantIds : List Text := []

/-- `principal_allowed_tenants`; an admin may have any. -/
def principalAllowedTenants (p : TenantPrincipal) : Option (List Text) :=
  if p.role = "admin".toList then none
  else if p.tenantIds ≠ [] then some (p.tenantIds.filter (· ≠ [])).dedup
  else some (truthy p.tenantId).toList

/-- The header, without the space around it. -/
def headerTenant (header : Option Text) : Option Text := truthy (header.map strip)

/-- The id that `resolve_request_tenant_id` returns. -/
def requestTenant (cfg : StorageSettings) (header : Option Text) (p : TenantPrincipal) :
    Except Refusal Text :=
  if !cfg.multiTenantEnabled then
    .ok (((headerTenant header).or (truthy p.tenantId)).getD "default".toList)
  else match headerTenant header with
    | some tid => if (principalAllowedTenants p).any (tid ∉ ·) then .error .forbidden else .ok tid
    | none =>
      match truthy p.tenantId with
      | some tid => .ok tid
      | none =>
        match cfg.authEnabled, principalAllowedTenants p with
        | true, some [only] => .ok only
        | true, _ => if p.authMethod ≠ "anonymous".toList then .error .badRequest else .ok "default".toList
        | false, _ => .ok "default".toList

/-- `resolve_request_tenant_id`: what it returns is set before. -/
def resolveRequestTenantId (cfg : StorageSettings) (header : Option Text) (p : TenantPrincipal)
    (current : Option Text) : Option Text × Except Refusal Text :=
  match requestTenant cfg header p with
  | .ok tid => (setTenantId tid, .ok tid)
  | .error e => (current, .error e)

/-! ### Requests -/

/-- What happens in the contexts of requests, in any order. -/
inductive Call (C : Type)
  | applyTenantHeaders (c : C) (header : Option Text)
  | resolveRequestTenantId (c : C) (header : Option Text) (p : TenantPrincipal)
  | getStore (c : C) (kind : StoreKind)
  | dropTenantStorage (tenantId : Text)

/-- The context variable, the stores that are held, the id that is current in each context, as it was given,
    and the stores that were obtained, each with the id that was current. -/
structure Process (C : Type) where
  tenantId : C → Option Text := fun _ => none
  registry : Registry := {}
  given : C → Option Text := fun _ => none
  obtained : List (Text × Store) := []

variable {C : Type} [DecidableEq C]

/-- The ids that are current behind a call. -/
def givenBy (cfg : StorageSettings) (given : C → Option Text) : Call C → C → Option Text
  | .applyTenantHeaders c header => Function.update given c ((truthy header).or (given c))
  | .resolveRequestTenantId c header p =>
    match requestTenant cfg header p with
    | .ok tid => Function.update given c (some tid)
    | .error _ => given
  | _ => given

def step (cfg : StorageSettings) (w : Process C) (call : Call C) : Process C :=
  let w := { w with given := givenBy cfg w.given call }
  match call with
  | .applyTenantHeaders c header =>
    { w with tenantId := Function.update w.tenantId c (applyTenantHeaders header (w.tenantId c)) }
  | .resolveRequestTenantId c header p =>
    { w with tenantId := Function.update w.tenantId c (resolveRequestTenantId cfg header p (w.tenantId c)).1 }
  | .getStore c kind =>
    match getterOf cfg kind (w.tenantId c) w.registry with
    | .ok (registry, store) =>
      { w with registry := registry, obtained := w.obtained ++ (w.given c).toList.map (·, store) }
    | .error _ => w
  | .dropTenantStorage tenantId =>
    match dropTenantStorage cfg tenantId w.registry with
    | .ok registry => { w with registry := registry }
    | .error _ => w

/-- The id, if any, that is current where a store is obtained. -/
def servedBy (given : C → Option Text) : Call C → List Text
  | .getStore c _ => (given c).toList
  | _ => []

def served (cfg : StorageSettings) : (C → Option Text) → List (Call C) → List Text
  | _, [] => []
  | given, call :: calls => servedBy given call ++ served cfg (givenBy cfg given call) calls

/-- Every tenant's stores are at its own path, and no other's are. -/
structure Isolated (cfg : StorageSettings) (obtained : List (Text × Store)) : Prop where
  placed : ∀ x ∈ obtained, sqlitePathForTenant cfg x.1 = .ok x.2.dbPath
  apart : ∀ x ∈ obtained, ∀ y ∈ obtained, x.1 ≠ y.1 → x.2.dbPath ≠ y.2.dbPath

/-- Something is left of each id, not `default` unless that is where the shared database is, and of no two the
    same. -/
structure ToldApart (cfg : StorageSettings) (tenants : List Text) : Prop where
  named : ∀ a ∈ tenants, cleanTenantId a ≠ []
  shared : ∀ a ∈ tenants, cleanTenantId a = "default".toList →
    tenantPath cfg "default".toList = cfg.sqlitePath
  distinct : ∀ a ∈ tenants, ∀ b ∈ tenants, cleanTenantId a = cleanTenantId b → a = b

/-! ### Clean ids -/

/-- What is left of an id is all left of it again. -/
theorem cleanTenantId_clean (tenantId : Text) :
    cleanTenantId (cleanTenantId tenantId) = cleanTenantId tenantId := by
  have hall : ∀ c ∈ cleanTenantId tenantId, (c.isAlphanum || c = '_' || c = '-') = true :=
    fun c hc => (List.mem_filter.1 (List.mem_of_mem_take hc)).2
  rw [cleanTenantId, List.filter_eq_self.2 hall, List.take_of_length_le]
  rw [cleanTenantId]
  exact List.length_take_le _ _

theorem slash_not_mem_clean (tenantId : Text) : '/' ∉ cleanTenantId tenantId := fun h => by
  simpa using (List.mem_filter.1 (List.mem_of_mem_take h)).2

theorem tenantDb_eq (safe : Text) :
    tenantDb safe = ['t', 'e', 'n', 'a', 'n', 't', '_'] ++ safe ++ ['.', 'd', 'b'] := rfl

theorem tenantDb_isName {safe : Text} (h : '/' ∉ safe) : PurePath.IsName (tenantDb safe) := by
  rw [tenantDb_eq]
  exact ⟨by simp, by simp, by simp [h]⟩

/-- Clean ids with one database are one id. -/
theorem tenantPath_inj (cfg : StorageSettings) {a b : Text} (ha : '/' ∉ a) (hb : '/' ∉ b) :
    tenantPath cfg a = tenantPath cfg b ↔ a = b := by
  rw [tenantPath, tenantPath, (tenantDb_isName ha).join_inj (tenantDb_isName hb), tenantDb_eq, tenantDb_eq,
    List.append_cancel_right_eq, List.append_cancel_left_eq]

theorem sanitizeTenantId_clean {tenantId : Text} (h : cleanTenantId tenantId ≠ []) :
    sanitizeTenantId (cleanTenantId tenantId) = .ok (cleanTenantId tenantId) := by
  rw [sanitizeTenantId, cleanTenantId_clean, if_neg h]

theorem sqlitePathForTenant_eq (cfg : StorageSettings) {tenantId : Text} (h : cleanTenantId tenantId ≠ []) :
    sqlitePathForTenant cfg tenantId = .ok (tenantPath cfg (cleanTenantId tenantId)) := by
  rw [sqlitePathForTenant, sanitizeTenantId, if_neg h]
  rfl

/-! ### What a getter returns -/

/-- The database of the stores that are obtained with the context variable. -/
def pathOf (cfg : StorageSettings) : Option Text → Text
  | none => cfg.sqlitePath
  | some key => if key = "default".toList then cfg.sqlitePath else tenantPath cfg key

/-- The stores that are held are where their key says. -/
structure Registry.Sound (cfg : StorageSettings) (r : Registry) : Prop where
  store : ∀ kind, ∀ x ∈ r.store kind, x.dbPath = cfg.sqlitePath
  stores : ∀ kind key, ∀ x ∈ (r.stores kind).get? key, x.dbPath = tenantPath cfg key

/-- The tenants are told apart, each in a file. -/
def MultiTenant (cfg : StorageSettings) : Prop := cfg.multiTenantEnabled = true ∧ cfg.usesPostgres = false

theorem ofTenant_eq {cfg : StorageSettings} (hcfg : MultiTenant cfg) (shared : Text)
    (forTenant : Text → Except Text Text) {tid : Text} (h : tid ≠ []) :
    ofTenant cfg shared forTenant (some tid) = forTenant tid := by
  simp [ofTenant, hcfg.1, hcfg.2, h]

theorem newStore_dbPath (cfg : StorageSettings) (kind : StoreKind) {dbPath : Text} (h : dbPath ≠ [])
    (vectorPath : Option Text) : (newStore cfg kind (some dbPath) vectorPath).dbPath = dbPath := if_neg h

theorem Registry.Sound.setStore {cfg : StorageSettings} {r : Registry} (hr : r.Sound cfg) (kind : StoreKind)
    {store : Store} (hstore : store.dbPath = cfg.sqlitePath) :
    Registry.Sound cfg { r with store := Function.update r.store kind (some store) } := by
  refine ⟨fun k x hx => ?_, hr.stores⟩
  by_cases hk : k = kind
  · subst hk
    have hself : Function.update r.store k (some store) k = some x := hx
    rw [Function.update_self, Option.some.injEq] at hself
    rw [← hself, hstore]
  · exact hr.store k x (Function.update_of_ne hk _ r.store ▸ hx)

theorem Registry.Sound.setStores {cfg : StorageSettings} {r : Registry} (hr : r.Sound cfg) (kind : StoreKind)
    {key : Text} {store : Store} (hstore : store.dbPath = tenantPath cfg key) :
    Registry.Sound cfg
      { r with stores := Function.update r.stores kind ((r.stores kind).set key store) } := by
  refine ⟨hr.store, fun k key' x hx => ?_⟩
  by_cases hk : k = kind
  · subst hk
    have hself : (Function.update r.stores k ((r.stores k).set key store) k).get? key' = some x := hx
    rw [Function.update_self, PyDict.get?_set] at hself
    split_ifs at hself with hkey
    · rw [← Option.some.inj hself, ← hkey, hstore]
    · exact hr.stores k key' x hself
  · exact hr.stores k key' x (Function.update_of_ne hk _ r.stores ▸ hx)

/-- The store of no tenant is at the shared database. -/
theorem getStore_shared {cfg : StorageSettings} (kind : StoreKind) {r : Registry} (hr : r.Sound cfg)
    {current : Option Text} (hkey : tenantCacheKey cfg current none = .ok "default".toList) :
    ∃ r' store, getStore cfg kind current r = .ok (r', store) ∧ store.dbPath = cfg.sqlitePath ∧
      r'.Sound cfg := by
  rw [getStore, hkey]
  cases hheld : r.store kind with
  | some store => exact ⟨r, store, rfl, hr.store kind store hheld, hr⟩
  | none => exact ⟨_, newStore cfg kind none none, rfl, rfl, hr.setStore kind rfl⟩

/-- The store of a tenant is at its own database, whether it is made now or was before. -/
theorem getStore_own {cfg : StorageSettings} (hcfg : MultiTenant cfg) (kind : StoreKind) {r : Registry}
    (hr : r.Sound cfg) {a : Text} (hclean : cleanTenantId a ≠ [])
    (hkey : tenantCacheKey cfg (some (cleanTenantId a)) none = .ok (cleanTenantId a))
    (hdefault : cleanTenantId a ≠ "default".toList) :
    ∃ r' store, getStore cfg kind (some (cleanTenantId a)) r = .ok (r', store) ∧
      store.dbPath = tenantPath cfg (cleanTenantId a) ∧ r'.Sound cfg := by
  cases hheld : (r.stores kind).get? (cleanTenantId a) with
  | some store =>
    refine ⟨r, store, ?_, hr.stores kind _ store hheld, hr⟩
    simp only [getStore, hkey, hheld, bind, Except.bind, if_neg hdefault]
    rfl
  | none =>
    have hpath : currentSqlitePath cfg (some (cleanTenantId a)) = .ok (tenantPath cfg (cleanTenantId a)) := by
      rw [currentSqlitePath, ofTenant_eq hcfg _ _ hclean, sqlitePathForTenant, sanitizeTenantId_clean hclean]
      rfl
    obtain ⟨path, hvector⟩ : ∃ path, currentVectorstorePath cfg (some (cleanTenantId a)) = .ok path := by
      rw [currentVectorstorePath, ofTenant_eq hcfg _ _ hclean, vectorstorePathForTenant,
        sanitizeTenantId_clean hclean]
      exact ⟨_, rfl⟩
    have hnil : tenantPath cfg (cleanTenantId a) ≠ [] :=
      (tenantDb_isName (slash_not_mem_clean a)).toText_ne_nil _
    have hnew (vectorPath : Option Text) :
        (newStore cfg kind (some (tenantPath cfg (cleanTenantId a))) vectorPath).dbPath =
          tenantPath cfg (cleanTenantId a) := newStore_dbPath cfg kind hnil vectorPath
    by_cases hknowledge : kind = .knowledge
    · refine ⟨_, _, ?_, hnew (some path), hr.setStores kind (hnew (some path))⟩
      simp only [getStore, hkey, hheld, hpath, hvector, bind, Except.bind, if_neg hdefault, if_pos hknowledge]
      rfl
    · refine ⟨_, _, ?_, hnew none, hr.setStores kind (hnew none)⟩
      simp only [getStore, hkey, hheld, hpath, bind, Except.bind, if_neg hdefault, if_neg hknowledge]
      rfl

/-- GETTERS: whatever stores are held, a getter returns one whose database is that of the current tenant. -/
theorem getStore_spec {cfg : StorageSettings} (hcfg : MultiTenant cfg) (kind : StoreKind) {r : Registry}
    (hr : r.Sound cfg) (given : Option Text) :
    ∃ r' store, getStore cfg kind (given.bind setTenantId) r = .ok (r', store) ∧
      store.dbPath = pathOf cfg (given.bind setTenantId) ∧ r'.Sound cfg := by
  have hnone : tenantCacheKey cfg none none = .ok "default".toList := by
    simp [tenantCacheKey, ofTenant, hcfg.1, hcfg.2]
  cases given with
  | none => exact getStore_shared kind hr hnone
  | some a =>
    rw [Option.bind_some, setTenantId]
    split_ifs with hclean
    · exact getStore_shared kind hr hnone
    · have hkey : tenantCacheKey cfg (some (cleanTenantId a)) none = .ok (cleanTenantId a) := by
        rw [tenantCacheKey, Option.none_or, ofTenant_eq hcfg _ _ hclean, sanitizeTenantId_clean hclean]
      rw [pathOf]
      split_ifs with hdefault
      · exact getStore_shared kind hr (hdefault ▸ hkey)
      · exact getStore_own hcfg kind hr hclean hkey hdefault

/-! ### Runs -/

/-- The context variables hold what is left of the ids that are current, and what is held or was obtained is
    where it should be. -/
structure Process.Kept (cfg : StorageSettings) (w : Process C) : Prop where
  current : ∀ c, w.tenantId c = (w.given c).bind setTenantId
  sound : w.registry.Sound cfg
  obtained : ∀ x ∈ w.obtained, x.2.dbPath = pathOf cfg (setTenantId x.1)

theorem getterOf_eq (cfg : StorageSettings) (kind : StoreKind) : getterOf cfg kind = getStore cfg kind := by
  cases kind <;> rfl

theorem sound_reset {cfg : StorageSettings} {r : Registry} (hr : r.Sound cfg) :
    (resetTenantStoreCaches r).Sound cfg := by
  constructor
  · intro kind x hx
    by_cases hkind : kind ∈ resetKinds
    · simp [resetTenantStoreCaches, hkind] at hx
    · exact hr.store kind x (by simpa [resetTenantStoreCaches, hkind] using hx)
  · intro kind key x hx
    by_cases hkind : kind ∈ resetKinds
    · simp [resetTenantStoreCaches, hkind] at hx
    · exact hr.stores kind key x (by simpa [resetTenantStoreCaches, hkind] using hx)

theorem applyTenantHeaders_bind (header given : Option Text) :
    applyTenantHeaders header (given.bind setTenantId) = ((truthy header).or given).bind setTenantId := by
  rw [applyTenantHeaders]
  cases truthy header with
  | none => rfl
  | some tid => rfl

/-- A value that a context variable is given is that of the id it is given for. -/
theorem update_bind {current given : C → Option Text} (h : ∀ c, current c = (given c).bind setTenantId)
    (c : C) (tid : Option Text) (c' : C) :
    Function.update current c (tid.bind setTenantId) c' =
      (Function.update given c tid c').bind setTenantId := by
  by_cases hc : c' = c
  · rw [hc, Function.update_self, Function.update_self]
  · rw [Function.update_of_ne hc, Function.update_of_ne hc, h]

theorem step_given (cfg : StorageSettings) (w : Process C) (call : Call C) :
    (step cfg w call).given = givenBy cfg w.given call := by
  cases call with
  | applyTenantHeaders c header => rfl
  | resolveRequestTenantId c header p => rfl
  | getStore c kind =>
    rw [step]
    split <;> rfl
  | dropTenantStorage tenantId =>
    rw [step]
    split <;> rfl

/-- STEP: the invariant is kept, and the stores that are obtained are for the ids that are current. -/
theorem kept_step {cfg : StorageSettings} (hcfg : MultiTenant cfg) {w : Process C} (hw : w.Kept cfg)
    (call : Call C) : (step cfg w call).Kept cfg ∧
      (step cfg w call).obtained.map Prod.fst = w.obtained.map Prod.fst ++ servedBy w.given call := by
  cases call with
  | applyTenantHeaders c header =>
    refine ⟨⟨fun c' => ?_, hw.sound, hw.obtained⟩, (List.append_nil _).symm⟩
    have hset := update_bind hw.current c ((truthy header).or (w.given c)) c'
    rw [← applyTenantHeaders_bind, ← hw.current] at hset
    exact hset
  | resolveRequestTenantId c header p =>
    refine ⟨⟨fun c' => ?_, hw.sound, hw.obtained⟩, (List.append_nil _).symm⟩
    simp only [step, resolveRequestTenantId, givenBy]
    cases requestTenant cfg header p with
    | ok tid => exact update_bind hw.current c (some tid) c'
    | error e =>
      rw [Function.update_eq_self]
      exact hw.current c'
  | getStore c kind =>
    obtain ⟨registry, store, hget, hpath, hsound⟩ := getStore_spec hcfg kind hw.sound (w.given c)
    rw [← hw.current c] at hget hpath
    rw [step, getterOf_eq, hget]
    refine ⟨⟨hw.current, hsound, fun x hx => ?_⟩, ?_⟩
    · rcases List.mem_append.1 hx with hold | hnew
      · exact hw.obtained x hold
      · obtain ⟨a, hgiven, rfl⟩ := List.mem_map.1 hnew
        have hcurrent : w.given c = some a := Option.mem_toList.1 hgiven
        rw [hpath, hw.current c, hcurrent, Option.bind_some]
    · rw [List.map_append, List.map_map]
      exact congrArg _ (List.map_id _)
  | dropTenantStorage tenantId =>
    rw [step, dropTenantStorage]
    cases sanitizeTenantId tenantId with
    | error message => exact ⟨⟨hw.current, hw.sound, hw.obtained⟩, (List.append_nil _).symm⟩
    | ok safe =>
      have hreset :
          (if cfg.usesPostgres then w.registry else resetTenantStoreCaches w.registry).Sound cfg := by
        rw [hcfg.2, if_neg Bool.false_ne_true]
        exact sound_reset hw.sound
      exact ⟨⟨hw.current, hreset, hw.obtained⟩, (List.append_nil _).symm⟩

/-- RUN: in whatever order the calls are made, every store that is obtained is at the path of the id that is
    current, and there is one for each. -/
theorem kept_run {cfg : StorageSettings} (hcfg : MultiTenant cfg) : ∀ (calls : List (Call C)) {w : Process C},
    w.Kept cfg → (run (step cfg) w calls).Kept cfg ∧
      (run (step cfg) w calls).obtained.map Prod.fst = w.obtained.map Prod.fst ++ served cfg w.given calls
  | [], w, hw => ⟨hw, (List.append_nil _).symm⟩
  | call :: calls, w, hw => by
      obtain ⟨hstep, hserved⟩ := kept_step hcfg hw call
      obtain ⟨hrun, hrest⟩ := kept_run hcfg calls hstep
      refine ⟨hrun, ?_⟩
      rw [run_cons, hrest, hserved, step_given, served, List.append_assoc]

omit [DecidableEq C] in
theorem kept_start (cfg : StorageSettings) : ({} : Process C).Kept cfg where
  current _ := rfl
  sound := ⟨fun _ _ hx => (nomatch hx), fun _ _ _ hx => (nomatch hx)⟩
  obtained _ hx := nomatch hx

/-! ### Isolation -/

theorem pathOf_setTenantId {cfg : StorageSettings} {a : Text} (hclean : cleanTenantId a ≠ [])
    (hshared : cleanTenantId a = "default".toList → tenantPath cfg "default".toList = cfg.sqlitePath) :
    pathOf cfg (setTenantId a) = tenantPath cfg (cleanTenantId a) := by
  rw [setTenantId, if_neg hclean, pathOf]
  split_ifs with hdefault
  · rw [hdefault, hshared hdefault]
  · rfl

/-- Ids of which the same is left are served from one database. -/
theorem setTenantId_congr {a b : Text} (h : cleanTenantId a = cleanTenantId b) :
    setTenantId a = setTenantId b := by
  rw [setTenantId, setTenantId, h]

/-- STORAGE ISOLATION: over any run, the stores of each tenant are at its own path and never where those of
    another are, exactly when the ids that stores are obtained for are told apart by what is left of them. -/
theorem storage_isolated_iff (cfg : StorageSettings) (hcfg : MultiTenant cfg) (calls : List (Call C)) :
    Isolated cfg (run (step cfg) {} calls).obtained ↔ ToldApart cfg (served cfg (fun _ => none) calls) := by
  obtain ⟨hkept, hserved⟩ := kept_run hcfg calls (kept_start cfg)
  have hof {x : Text × Store} (hx : x ∈ (run (step cfg) ({} : Process C) calls).obtained) :
      x.1 ∈ served cfg (fun _ => none) calls := by
    have hmem := List.mem_map_of_mem hx (f := Prod.fst)
    rwa [hserved] at hmem
  constructor
  · rintro ⟨hplaced, hapart⟩
    have hfrom {a : Text} (ha : a ∈ served cfg (fun _ => none) calls) :
        ∃ x ∈ (run (step cfg) ({} : Process C) calls).obtained, x.1 = a := by
      rw [← List.mem_map, hserved]
      exact ha
    have hnamed : ∀ a ∈ served cfg (fun _ => none) calls, cleanTenantId a ≠ [] := by
      intro a ha hnil
      obtain ⟨x, hx, rfl⟩ := hfrom ha
      have hpath := hplaced x hx
      rw [sqlitePathForTenant, sanitizeTenantId, if_pos hnil] at hpath
      cases hpath
    refine ⟨hnamed, fun a ha hdefault => ?_, fun a ha b hb hclean => ?_⟩
    · obtain ⟨x, hx, rfl⟩ := hfrom ha
      have hpath := hplaced x hx
      rw [sqlitePathForTenant_eq cfg (hnamed _ ha), hkept.obtained x hx, setTenantId, if_neg (hnamed _ ha),
        pathOf, if_pos hdefault, hdefault] at hpath
      exact Except.ok.inj hpath
    · obtain ⟨x, hx, rfl⟩ := hfrom ha
      obtain ⟨y, hy, rfl⟩ := hfrom hb
      by_contra hne
      refine hapart x hx y hy hne ?_
      rw [hkept.obtained x hx, hkept.obtained y hy, setTenantId_congr hclean]
  · rintro ⟨hnamed, hshared, hdistinct⟩
    have hpath {x : Text × Store} (hx : x ∈ (run (step cfg) ({} : Process C) calls).obtained) :
        x.2.dbPath = tenantPath cfg (cleanTenantId x.1) := by
      rw [hkept.obtained x hx, pathOf_setTenantId (hnamed _ (hof hx)) (hshared _ (hof hx))]
    refine ⟨fun x hx => ?_, fun x hx y hy hne heq => ?_⟩
    · rw [sqlitePathForTenant_eq cfg (hnamed _ (hof hx)), hpath hx]
    · rw [hpath hx, hpath hy, tenantPath_inj cfg (slash_not_mem_clean _) (slash_not_mem_clean _)] at heq
      exact hne (hdistinct _ (hof hx) _ (hof hy) heq)

/-- The database that the settings come with. -/
def sharedDb : StorageSettings where
  multiTenantEnabled := true
  usesPostgres := false
  authEnabled := true
  sqlitePath := "./data/db/agent.db".toList
  vectorstorePath := "./data/vectorstore".toList

/-- A request of a user of a tenant, and a store that it uses. -/
def usesStore (c : ℕ) (tenant : Text) (kind : StoreKind) : List (Call ℕ) :=
  [.resolveRequestTenantId c none
      { userId := "u".toList, role := "user".toList, authMethod := "jwt".toList, tenantId := some tenant },
    .getStore c kind]

/-- Two tenants whose ids differ in a dot have their dead letters in one database. -/
theorem dotted_tenants_share : ¬ ∀ (cfg : StorageSettings) (calls : List (Call ℕ)), MultiTenant cfg →
    Isolated cfg (run (step cfg) {} calls).obtained := by
  intro h
  let calls := usesStore 0 "a.b".toList .deadLetter ++ usesStore 1 "ab".toList .deadLetter
  let store : Store := { kind := .deadLetter, dbPath := "data/db/tenant_ab.db".toList }
  have hobtained : (run (step sharedDb) {} calls).obtained =
      [("a.b".toList, store), ("ab".toList, store)] := by
    decide +kernel
  have hisolated := h sharedDb calls ⟨rfl, rfl⟩
  rw [hobtained] at hisolated
  exact hisolated.apart _ (.head _) _ (.tail _ (.head _)) (by decide) rfl

theorem two_tenants_apart :
    Isolated sharedDb (run (step sharedDb) {}
      (usesStore 0 "acme".toList .deadLetter ++ usesStore 1 "beta".toList .llmInteraction)).obtained := by
  refine (storage_isolated_iff sharedDb ⟨rfl, rfl⟩ _).2 ⟨?_, ?_, ?_⟩
  · decide +kernel
  · decide +kernel
  · decide +kernel

end AgentLangraph.Tenant
