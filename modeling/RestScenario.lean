import RestScenario.Json.Printer
import RestScenario.Main
import RestScenario.Proofs.Action.Leading
import RestScenario.Proofs.Call.OneRowPerTable
import RestScenario.Proofs.Database.MissingTables
import RestScenario.Proofs.Engine.Identified
import RestScenario.Proofs.Engine.Seeds
import RestScenario.Proofs.Engine.Loop
import RestScenario.Proofs.Engine.Obtained
import RestScenario.Proofs.Engine.Recognized
import RestScenario.Proofs.Engine.Session
import RestScenario.Proofs.Learning.Attribution
import RestScenario.Proofs.Learning.Certainty
import RestScenario.Proofs.Learning.Comparison
import RestScenario.Proofs.Learning.Exchange
import RestScenario.Proofs.Learning.InRange
import RestScenario.Proofs.Learning.Names
import RestScenario.Proofs.Learning.Reported
import RestScenario.Proofs.Learning.SelfDependency
import RestScenario.Proofs.Learning.TableGrowth
import RestScenario.Proofs.Learning.Unjudged
import RestScenario.Proofs.Learning.Writers
import RestScenario.Proofs.Path.Forest
import RestScenario.Proofs.Path.Rereading
import RestScenario.Proofs.Resource.Creators
import RestScenario.Proofs.Resource.Filing
import RestScenario.Proofs.Resource.Requirements
import RestScenario.Proofs.Sampling.OneInstance
import RestScenario.Proofs.Sampling.Status
import RestScenario.Proofs.Scenario.Rebinding
import RestScenario.Proofs.Database.Differences
import RestScenario.Proofs.Learning.Columns
import RestScenario.Proofs.Call.Latest
import RestScenario.Proofs.Sampling.Balance
import RestScenario.Proofs.Similarity.Distance
import RestScenario.Proofs.Similarity.Words
