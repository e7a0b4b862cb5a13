import HeadJob.Main
import HeadJob.Proofs.Document.Decode
import HeadJob.Proofs.Launch.Agreement
import HeadJob.Proofs.Config.Substitution
import HeadJob.Proofs.Launch.Remains
import HeadJob.Proofs.Launch.Shown
import HeadJob.Proofs.Config.Literal
import HeadJob.Proofs.Config.ClosingBrace
import HeadJob.Proofs.Config.Layout
import HeadJob.Proofs.Document.Annotated
import HeadJob.Proofs.Document.Balanced
import HeadJob.Proofs.Config.BadReference
import HeadJob.Proofs.Text.Split
import HeadJob.Proofs.Volume.Layout
import HeadJob.Proofs.Volume.Entry
import HeadJob.Proofs.Volume.Appended
import HeadJob.Proofs.Volume.Reread
import HeadJob.Proofs.Volume.Repeated
import HeadJob.Proofs.Volume.Quoted
import HeadJob.Proofs.Volume.Settled
import HeadJob.Proofs.Volume.EntryRecords
import HeadJob.Proofs.Volume.Mounted
import HeadJob.Proofs.Document.Warned
import HeadJob.Proofs.Launch.Arguments
import HeadJob.Proofs.Launch.Processors
import HeadJob.Proofs.Launch.Shell
import HeadJob.Proofs.Manifest.Mounts
import HeadJob.Proofs.Config.Comment
import HeadJob.Proofs.Config.Bytewise
import HeadJob.Proofs.Launch.Environment
import HeadJob.Proofs.Json.Pretty
