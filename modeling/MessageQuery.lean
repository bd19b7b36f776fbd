import MessageQuery.Proofs.Cache.Generation
import MessageQuery.Proofs.Path.Completeness
import MessageQuery.Session
import MessageQuery.Proofs.Walk.Location
import MessageQuery.Proofs.Walk.Guidance
import MessageQuery.Proofs.Walk.Substitution
import MessageQuery.Proofs.Walk.IndexSlice
import MessageQuery.Proofs.Strictness
import MessageQuery.Proofs.NormalForm
import MessageQuery.Proofs.Walk.Naming
import MessageQuery.Proofs.Cache.Declared
import MessageQuery.Proofs.Cache.Frame
import MessageQuery.Proofs.Walk.Conjunction
import MessageQuery.Proofs.Walk.Offsets
import MessageQuery.Proofs.Cache.Batch
import MessageQuery.Proofs.Binary64.Shortest
import MessageQuery.Proofs.Json.Numerals
import MessageQuery.Proofs.Json.Values
import MessageQuery.Proofs.Json.Records
import MessageQuery.Proofs.Json.Events
import MessageQuery.Proofs.Cache.Changes
import MessageQuery.Proofs.Cache.Instances
import MessageQuery.Proofs.Cache.Outcomes
import MessageQuery.Proofs.Path.Positions
import MessageQuery.Proofs.Quoting
import MessageQuery.Proofs.Cache.Declaring
import MessageQuery.Proofs.IntegerText
import MessageQuery.Proofs.Walk.OpenSlice
import MessageQuery.Proofs.Walk.Spelling
import MessageQuery.Proofs.Path.Stepping
import MessageQuery.Proofs.Json.Survival
import MessageQuery.Proofs.Json.Schemas
import MessageQuery.Proofs.Path.Diagnostics
import MessageQuery.Proofs.Cache.Pruning
