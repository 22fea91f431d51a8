import MultiAi.Host.Link
import MultiAi.Host.Outcome
import MultiAi.Host.Schedule
import MultiAi.Host.Stderr
import MultiAi.Ssh.Config
import MultiAi.Ssh.Hop
import MultiAi.Ssh.Learn
import MultiAi.Ssh.Order
import MultiAi.Ssh.Passphrase
import MultiAi.Ssh.Patterns
import MultiAi.Ssh.Pty
import MultiAi.Ssh.Secrets
import MultiAi.Ssh.Target
import MultiAi.Deploy.Detect
import MultiAi.Deploy.Redeploy
import MultiAi.Deploy.Intact
import MultiAi.Deploy.Orderly
import MultiAi.Deploy.Local
import MultiAi.Hooks.Undo
import MultiAi.Hooks.Report
import MultiAi.Probe.Inference
import MultiAi.Probe.SpoolTorn
import MultiAi.Probe.SpoolDir
import MultiAi.Probe.SpoolKeep
import MultiAi.Probe.Agents
import MultiAi.Probe.OneServe
import MultiAi.Tracker.Pending
import MultiAi.Monitor.Mirror
import MultiAi.Panes.Blocks
import MultiAi.Panes.Covered
import MultiAi.Terms.Alternate
import MultiAi.Terms.LocalPty
import MultiAi.Terms.Needs
import MultiAi.Terms.Orphans
import MultiAi.Terms.Size
import MultiAi.Relay.Generations
import MultiAi.Restart.Silent
import MultiAi.Silence.Episodes
import MultiAi.Agreement.View
import MultiAi.Agreement.Beats
import MultiAi.Agreement.Listing
