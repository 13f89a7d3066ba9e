import QueryPress.Engine
import QueryPress.LogDirective
import QueryPress.Proofs.Resource.Loading
import QueryPress.Settings.Reader
import QueryPress.Proofs.Resource.Soundness
import QueryPress.Proofs.Resource.Answers
import QueryPress.Proofs.Resource.Following
import QueryPress.Proofs.Resource.Walk
import QueryPress.Proofs.Resource.Closure
import QueryPress.Proofs.Markup.Holding
import QueryPress.Proofs.Resource.Choice
import QueryPress.Proofs.Disk.Aging
import QueryPress.Proofs.Resource.Backing
import QueryPress.Proofs.Resource.Serving
import QueryPress.Proofs.Resource.Renewing
import QueryPress.Proofs.Resource.Holdings
import QueryPress.Proofs.Resource.Sharing
import QueryPress.Proofs.Template.Upkeep
import QueryPress.Proofs.Disk.Leading
import QueryPress.Proofs.Template.Making
import QueryPress.Proofs.Press.Session
import QueryPress.Proofs.Press.Prompt
import QueryPress.Proofs.Markup.Requests
import QueryPress.Proofs.Markup.Written
import QueryPress.Proofs.Merge.Heredity
import QueryPress.Proofs.Merge.Missing
import QueryPress.Proofs.Merge.Repeating
import QueryPress.Proofs.Template.Settling
import QueryPress.Proofs.Template.Asking
import QueryPress.Proofs.Template.Exactness
import QueryPress.Proofs.Text.Reading
import QueryPress.Proofs.Markup.Inside
import QueryPress.Proofs.Markup.Tag
import QueryPress.Proofs.Markup.Tidy
import QueryPress.Proofs.Markup.Found
import QueryPress.Proofs.Markup.Naming
import QueryPress.Proofs.Markup.Agreement
import QueryPress.Proofs.Disk.Changing
import QueryPress.Proofs.Resource.Rechecking
import QueryPress.Proofs.Resource.Delivering
import QueryPress.Proofs.Disk.Filing
import QueryPress.Proofs.Engine.Materialized
import QueryPress.Proofs.Press.Settling
import QueryPress.Proofs.Resource.Resting
import QueryPress.Proofs.Resource.Repeating
import QueryPress.Proofs.Template.Stability
import QueryPress.Proofs.Press.Stability
import QueryPress.Proofs.Properties.OnePass
import QueryPress.Proofs.Engine.Outliving
import QueryPress.Proofs.Properties.Latest
import QueryPress.Proofs.Resource.Pairing
import QueryPress.Proofs.Markup.Renaming
import QueryPress.Proofs.Merge.Renaming
import QueryPress.Proofs.Template.Twins
import QueryPress.Proofs.Template.Strategies
import QueryPress.Proofs.Press.Strategies
import QueryPress.Proofs.Properties.Written
import QueryPress.Proofs.Resource.Confinement
import QueryPress.Proofs.Template.Using
import QueryPress.Proofs.Press.Describing
import QueryPress.Proofs.Press.Confinement
import QueryPress.Proofs.Press.Apart
import QueryPress.Proofs.Press.InMemory
import QueryPress.Proofs.Press.Exits
import QueryPress.Proofs.Disk.Denoting
import QueryPress.Proofs.Resource.Working
import QueryPress.Proofs.Template.Questions
import QueryPress.Proofs.Template.Removing
import QueryPress.Proofs.Press.Removal
import QueryPress.Proofs.Press.Undoing
import QueryPress.Proofs.Properties.LineEnds
import QueryPress.Proofs.Press.Buffers
import QueryPress.Proofs.Resource.Keeping
import QueryPress.Proofs.Markup.Fragments
import QueryPress.Proofs.Properties.Appending
import QueryPress.Proofs.Properties.Numbered
import QueryPress.Proofs.Press.Marking
import QueryPress.Proofs.Merge.Filtering
import QueryPress.Proofs.Resource.Origins
import QueryPress.Proofs.Press.Loaders
import QueryPress.Proofs.Properties.Declared
import QueryPress.Proofs.Press.Context
