import LocalCloud.Proofs.Model.Links
import LocalCloud.Proofs.Text.Joining

/-!
# Why one entry waits for another

The reasons for which an entry of a model waits for another one are given by the links of the model
and by the texts in the environments of its functions (`Reason`).  The graph of a model has exactly
one edge for each of them (`edges_exact`): from what is waited for to what waits, of the type that
belongs to the reason.
-/

namespace LocalCloud

/-- A text names a resource by its name, if that is not empty: it is the name, or the name with a
dot and more behind it, or it ends in the name behind a slash or a colon. -/
def NamedIn (name text : String) : Prop :=
  name ≠ "" ∧ (text = name ∨ (∃ rest, text = name ++ "." ++ rest) ∨
    (∃ front, text = front ++ "/" ++ name) ∨ ∃ front, text = front ++ ":" ++ name)

theorem namesResource_iff {text name : String} :
    namesResource text name = true ↔ NamedIn name text := by
  simp [namesResource, NamedIn, Text.startsWith_iff, Text.endsWith_iff, String.append_assoc,
    or_assoc]

namespace Model

variable {m : Model} {g : Graph} {a b : String} {type : EdgeType}

/-- The entries that a function can name: tables, queues, topics, buses other than the one that
every account has, and state machines. -/
def Nameable (m : Model) (e : Entry) : Prop :=
  (∃ t ∈ m.tables, t.toEntry = e) ∨ (∃ q ∈ m.queues, q.toEntry = e) ∨
    (∃ t ∈ m.topics, t.toEntry = e) ∨ (∃ b ∈ m.buses, b.id ≠ defaultBus ∧ b.toEntry = e) ∨
    ∃ s ∈ m.stateMachines, s.toEntry = e

theorem mem_nameable_iff {e : Entry} : e ∈ m.nameable ↔ m.Nameable e := by
  simp [nameable, Nameable, and_assoc]

/-- The second of two ids waits for the first one, for a reason of the given type. -/
inductive Reason (m : Model) : String → String → EdgeType → Prop
  | named {e : Entry} {f : ComputeFunction} {key text : String} (he : m.Nameable e)
    (hf : f ∈ m.functions) (htext : (key, text) ∈ f.environment)
    (hnamed : NamedIn e.name text) : Reason m e.id f.id .dataDependency
  | deadLetters {q : Queue} {id : String} (hq : q ∈ m.queues)
    (hid : q.deadLetterTarget = some id) : Reason m id q.id .dataDependency
  | eventSource {f : ComputeFunction} {id : String} (hf : f ∈ m.functions)
    (hid : id ∈ f.eventSources) : Reason m id f.id .triggers
  | route {api : Api} {r : Route} {id : String} (hapi : api ∈ m.apis) (hr : r ∈ api.routes)
    (hid : r.target = some id) : Reason m id api.id .triggers
  | rule {bus : Bus} {r : Rule} {id : String} (hbus : bus ∈ m.buses) (hr : r ∈ bus.rules)
    (hid : id ∈ r.targets) : Reason m id bus.id .triggers
  | subscription {t : Topic} {s : Subscription} {id : String} (ht : t ∈ m.topics)
    (hs : s ∈ t.subscriptions) (hid : s.target = some id) : Reason m id t.id .triggers
  | invoked {s : StateMachine} {id : String} (hs : s ∈ m.stateMachines) (hid : id ∈ s.invokes) :
    Reason m id s.id .invokes
  | declared {e : Entry} {id : String} (he : e ∈ m.entries) (hid : id ∈ e.dependsOn) :
    Reason m id e.id .dependsOn

theorem reason_of_mem_functionEdges {f : ComputeFunction} (hf : f ∈ m.functions)
    (h : ⟨a, b, type⟩ ∈ m.functionEdges f) : m.Reason a b type := by
  rcases List.mem_append.1 h with h | h
  · obtain ⟨⟨key, text⟩, htext, h⟩ := List.mem_flatMap.1 h
    obtain ⟨e, he, hedge⟩ := List.mem_map.1 h
    obtain ⟨rfl, rfl, rfl⟩ := GraphEdge.mk.inj hedge
    obtain ⟨he, hnamed⟩ := List.mem_filter.1 he
    exact .named (mem_nameable_iff.1 he) hf htext (namesResource_iff.1 hnamed)
  · obtain ⟨id, hid, hedge⟩ := List.mem_map.1 h
    obtain ⟨rfl, rfl, rfl⟩ := GraphEdge.mk.inj hedge
    exact .eventSource hf hid

theorem mem_functionEdges_of_named {e : Entry} {f : ComputeFunction} {key text : String}
    (he : m.Nameable e) (htext : (key, text) ∈ f.environment) (hnamed : NamedIn e.name text) :
    ⟨e.id, f.id, .dataDependency⟩ ∈ m.functionEdges f := by
  refine List.mem_append_left _ (List.mem_flatMap.2 ⟨_, htext, List.mem_map.2 ⟨e, ?_, rfl⟩⟩)
  exact List.mem_filter.2 ⟨mem_nameable_iff.2 he, namesResource_iff.2 hnamed⟩

/-- Edges come from reasons, and every reason gives one. -/
theorem mem_graphEdges_iff_reason : ⟨a, b, type⟩ ∈ m.graphEdges ↔ m.Reason a b type := by
  rw [mem_graphEdges_iff]
  constructor
  · rintro (⟨f, hf, hedge⟩ | ⟨api, hapi, ha, rfl, rfl⟩ | ⟨bus, hbus, ha, rfl, rfl⟩ |
      ⟨t, ht, ha, rfl, rfl⟩ | ⟨q, hq, ha, rfl, rfl⟩ | ⟨s, hs, ha, rfl, rfl⟩ | ⟨e, he, ha, rfl, rfl⟩)
    · exact reason_of_mem_functionEdges hf hedge
    · obtain ⟨r, hr, hid⟩ := List.mem_filterMap.1 ha
      exact .route hapi hr hid
    · obtain ⟨r, hr, hid⟩ := List.mem_flatMap.1 ha
      exact .rule hbus hr hid
    · obtain ⟨s, hs, hid⟩ := List.mem_filterMap.1 ha
      exact .subscription ht hs hid
    · exact .deadLetters hq (Option.mem_toList.1 ha)
    · exact .invoked hs ha
    · exact .declared he ha
  · intro h
    cases h with
    | named he hf htext hnamed => exact .inl ⟨_, hf, mem_functionEdges_of_named he htext hnamed⟩
    | eventSource hf hid =>
      exact .inl ⟨_, hf, List.mem_append_right _ (List.mem_map_of_mem hid)⟩
    | route hapi hr hid =>
      exact .inr (.inl ⟨_, hapi, List.mem_filterMap.2 ⟨_, hr, hid⟩, rfl, rfl⟩)
    | rule hbus hr hid =>
      exact .inr (.inr (.inl ⟨_, hbus, List.mem_flatMap.2 ⟨_, hr, hid⟩, rfl, rfl⟩))
    | subscription ht hs hid =>
      exact .inr (.inr (.inr (.inl ⟨_, ht, List.mem_filterMap.2 ⟨_, hs, hid⟩, rfl, rfl⟩)))
    | deadLetters hq hid =>
      exact .inr (.inr (.inr (.inr (.inl ⟨_, hq, Option.mem_toList.2 hid, rfl, rfl⟩))))
    | invoked hs hid => exact .inr (.inr (.inr (.inr (.inr (.inl ⟨_, hs, hid, rfl, rfl⟩)))))
    | declared he hid => exact .inr (.inr (.inr (.inr (.inr (.inr ⟨_, he, hid, rfl, rfl⟩)))))

/-- The graph of a model has an edge for each reason, once, and no other. -/
theorem edges_exact (h : m.graph.run.value = .ok g) :
    g.edges.Nodup ∧ ∀ a b type, ⟨a, b, type⟩ ∈ g.edges ↔ m.Reason a b type := by
  rw [Graph.edges_of_build h]
  refine ⟨nodup_eraseDups _, fun a b type => ?_⟩
  exact List.mem_eraseDups.trans mem_graphEdges_iff_reason

/-- What the entries of the model below have in common. -/
def bookEntry (logicalId name : String) (dependsOn : List String) : Entry where
  id := "Books/" ++ logicalId
  stack := "Books"
  logicalId
  name
  constructPath := none
  dependsOn

/-- A model with a reason of every kind.  The worker names the table in two of its variables, and
the name of the bus that every account has in another one. -/
def bookShop : Model where
  tables :=
    [{ bookEntry "Stock" "stock" [] with
       partitionKey := none, sortKey := none, globalIndexes := [], streamEnabled := true }]
  functions :=
    [{ bookEntry "Worker" "worker" ["Books/Jobs"] with
       handler := none, runtime := none, timeoutSeconds := none, memoryMegabytes := none
       environment := [("TABLE", "stock"), ("TABLE_ARN", "arn:aws:dynamodb:local:table/stock"),
         ("STREAM", "stock.StreamArn"), ("BUS", "default")]
       code := .unknown, eventSources := ["Books/Jobs"] }]
  apis :=
    [{ bookEntry "Site" "site" [] with
       protocol := .http, routes := [⟨"GET", "/", some "Books/Worker"⟩, ⟨"GET", "/none", none⟩] }]
  buses :=
    [{ bookEntry "Bus" "default" [] with
       id := defaultBus, rules := [⟨"Rule", "rule", .null, none, ["Books/Worker"]⟩] }]
  stateMachines :=
    [{ bookEntry "Flow" "flow" [] with definition := .null, invokes := ["Books/Worker"] }]
  queues :=
    [{ bookEntry "Jobs" "jobs" [] with
       fifo := false, visibilityTimeoutSeconds := none, deadLetterTarget := some "Books/Failed" },
     { bookEntry "Failed" "" [] with
       fifo := false, visibilityTimeoutSeconds := none, deadLetterTarget := none }]
  topics :=
    [{ bookEntry "News" "news" [] with subscriptions := [⟨"sqs", "jobs", some "Books/Jobs"⟩] }]

/-- The reasons in the model, one for each edge of its graph. -/
def bookShopEdges : List GraphEdge :=
  [⟨"Books/Stock", "Books/Worker", .dataDependency⟩, ⟨"Books/Jobs", "Books/Worker", .triggers⟩,
    ⟨"Books/Worker", "Books/Site", .triggers⟩, ⟨"Books/Worker", "default", .triggers⟩,
    ⟨"Books/Jobs", "Books/News", .triggers⟩, ⟨"Books/Failed", "Books/Jobs", .dataDependency⟩,
    ⟨"Books/Worker", "Books/Flow", .invokes⟩, ⟨"Books/Jobs", "Books/Worker", .dependsOn⟩]

theorem bookShop_edges : ∃ g, bookShop.graph.run.value = .ok g ∧ g.edges = bookShopEdges ∧
    g.edges.Nodup ∧ ∀ a b type, ⟨a, b, type⟩ ∈ bookShopEdges ↔ bookShop.Reason a b type := by
  obtain ⟨g, hg⟩ := graph_ok_iff.2 (by decide +kernel : ∀ id ∈ bookShop.links, id ∈ bookShop.ids)
  have hedges : g.edges = bookShopEdges := (Graph.edges_of_build hg).trans (by decide +kernel)
  obtain ⟨hnodup, hexact⟩ := edges_exact hg
  exact ⟨g, hg, hedges, hnodup, fun a b type => hedges ▸ hexact a b type⟩

end Model

end LocalCloud
