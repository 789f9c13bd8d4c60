import MediaEngine.CommandLine
import MediaEngine.Chain.Node.Printer
import MediaEngine.Job.Token.Session
import MediaEngine.Main
import MediaEngine.Plan.Reader
import MediaEngine.Proofs.Absorbing
import MediaEngine.Proofs.Compile.Dependence
import MediaEngine.Proofs.Compile.Forms
import MediaEngine.Proofs.Compile.Grammar
import MediaEngine.Proofs.Ends
import MediaEngine.Proofs.Entries
import MediaEngine.Proofs.Likeness
import MediaEngine.Proofs.Mirrors
import MediaEngine.Proofs.Shallow
import MediaEngine.Proofs.Retention
import MediaEngine.Proofs.Waiters
import MediaEngine.Proofs.Written.Chains
import MediaEngine.Proofs.Written.Plans
import MediaEngine.Scheduler.Command
import MediaEngine.Settings.Environment
import MediaEngine.Proofs.Filings
import MediaEngine.Proofs.Warnings
import MediaEngine.Proofs.Lapses
import MediaEngine.Proofs.Overdue
import MediaEngine.Proofs.Exits
import MediaEngine.Proofs.Decimals
import MediaEngine.Proofs.Json.Numbers
import MediaEngine.Proofs.Json.Grammar
import MediaEngine.Proofs.Json.Reading
import MediaEngine.Proofs.Written.Readable
import MediaEngine.Proofs.Written.Texts
import MediaEngine.Proofs.Commands
import MediaEngine.Proofs.FilterArguments
import MediaEngine.Proofs.Stopping
import MediaEngine.Proofs.Dropping
import MediaEngine.Proofs.Sweeping
import MediaEngine.Proofs.Arming
import MediaEngine.Proofs.Expiring
import MediaEngine.Proofs.Reconciling
import MediaEngine.Proofs.Latest
import MediaEngine.Proofs.Compile.Speeds
import MediaEngine.Proofs.Callbacks
import MediaEngine.Proofs.Removers
import MediaEngine.Proofs.Compile.Locations
import MediaEngine.Proofs.Compile.Estimates
import MediaEngine.Proofs.Compile.Milliseconds
import MediaEngine.Proofs.Environments
import MediaEngine.Proofs.Results
